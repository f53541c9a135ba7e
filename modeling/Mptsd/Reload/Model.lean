/- Unit: Mptsd/Reload/Model
   source: src/config.c (config_load_channels), src/mptsd.c (spawn_input_threads),
   src/data.c (input_new, input_free, proxy_close)
   digest: The channel objects, the list of channels and the list of inputs, and what a reload, the
   spawning of threads and the exit of an input do to them. -/

import Mptsd.Channels

set_option autoImplicit false
set_option relaxedAutoImplicit false

namespace Mptsd.Reload.Model

open Mptsd.Channels

/-- A channel as `channel_new` and the source functions leave it. -/
structure ChannelObject where
  channel : Channel
  index : 0 < channel.index ∧ channel.index < 256
  source : channel.source.isSome = true

private theorem source_chansrcSet {c : Channel} (source : c.source.isSome = true) (srcId : ℕ) :
    (chansrcSet c srcId).source.isSome = true := by
  rw [chansrcSet]
  split_ifs with outside
  · exact source
  · exact Option.isSome_iff_ne_none.mpr fun missing => outside (Or.inr missing)

theorem chansrcSet_frame (c : Channel) (srcId : ℕ) :
    (chansrcSet c srcId).index = c.index ∧ (chansrcSet c srcId).name = c.name := by
  rw [chansrcSet]
  split_ifs <;> exact ⟨rfl, rfl⟩

def ChannelObject.set (c : ChannelObject) (srcId : ℕ) : ChannelObject where
  channel := chansrcSet c.channel srcId
  index := by
    rw [(chansrcSet_frame c.channel srcId).1]
    exact c.index
  source := source_chansrcSet c.source srcId

/-- `channel_new` called with the fields of a channel. -/
def copyChannel (c : Channel) : Option Channel :=
  channelNew c.serviceId c.radio c.id c.name c.eitMode (c.source.getD "") c.index c.lcn c.lcnVisible

private theorem copyChannel_isSome (c : ChannelObject) : (copyChannel c.channel).isSome = true := by
  obtain ⟨pos, lt⟩ := c.index
  rw [copyChannel, channelNew]
  rw [if_neg (by omega)]
  rfl

private theorem copyChannel_object {c c' : Channel} (copied : copyChannel c = some c') :
    (0 < c'.index ∧ c'.index < 256) ∧ c'.source.isSome = true := by
  obtain ⟨made, -⟩ := channelNew_made copied
  refine ⟨⟨made.index_pos, made.index_lt⟩, ?_⟩
  rw [copyChannel, channelNew] at copied
  split at copied
  · cases copied
  · obtain rfl := Option.some.inj copied
    rfl

def ChannelObject.copy (c : ChannelObject) : ChannelObject where
  channel := (copyChannel c.channel).get (copyChannel_isSome c)
  index := (copyChannel_object (Option.some_get _).symm).1
  source := (copyChannel_object (Option.some_get _).symm).2

/-- The channel objects by address; the first `next` addresses have been handed out. A freed object
keeps its contents: nothing is said about what a read of it gives. -/
structure Heap where
  memory : ℕ → ChannelObject
  next : ℕ

def Heap.alloc (h : Heap) (c : ChannelObject) : ℕ × Heap :=
  (h.next, ⟨Function.update h.memory h.next c, h.next + 1⟩)

theorem Heap.alloc_address (h : Heap) (c : ChannelObject) : (h.alloc c).1 = h.next := rfl

theorem Heap.alloc_next (h : Heap) (c : ChannelObject) : (h.alloc c).2.next = h.next + 1 := rfl

theorem Heap.alloc_own (h : Heap) (c : ChannelObject) : (h.alloc c).2.memory h.next = c :=
  Function.update_self _ _ _

theorem Heap.alloc_others (h : Heap) (c : ChannelObject) {a : ℕ} (below : a < h.next) :
    (h.alloc c).2.memory a = h.memory a :=
  Function.update_of_ne below.ne _ _

def Heap.set (h : Heap) (a srcId : ℕ) : Heap :=
  { h with memory := Function.update h.memory a ((h.memory a).set srcId) }

def Heap.name (h : Heap) (a : ℕ) : String := (h.memory a).channel.name

/-- The part of `INPUT` the reload reads and writes; `channel` is an address. -/
structure Input where
  name : String
  channel : ℕ
  cookie : ℤ
  reconnect : Bool
  dienow : Bool
  freechannel : Bool

def inputNew (name : String) (channel : ℕ) : Input :=
  { name
    channel
    cookie := 0
    reconnect := false
    dienow := false
    freechannel := false }

/-- `conf->channels` and `conf->inputs`. `freed` records the argument of every call of
`channel_free`, oldest first. -/
structure State where
  heap : Heap
  channels : List ℕ
  inputs : List Input
  freed : List ℕ

/-- The place of the old source among those of the new channel, the last one if there are more. -/
def srcFound (chan : Channel) (oldSource : Option String) : Option ℕ :=
  (List.range chan.numSrc).foldl
    (fun found i => if chan.sources i = oldSource then some i else found) none

/-- The inner loop of the rewriting: the first restreamer with the name of the channel gets it. -/
def rewriteRestreamer (cookie : ℤ) (chan : ℕ) (h : Heap) : List Input → Heap × List Input
  | [] => (h, [])
  | restr :: rest =>
      if h.name chan = restr.name then
        match srcFound (h.memory chan).channel (h.memory restr.channel).channel.source with
        | some i => (h.set chan i, { restr with cookie, channel := chan } :: rest)
        | none =>
            (h.set chan ((h.memory chan).channel.numSrc - 1),
              { restr with cookie, channel := chan, reconnect := true } :: rest)
      else
        let others := rewriteRestreamer cookie chan h rest
        (others.1, restr :: others.2)

def rewriteRestreamers (cookie : ℤ) : List ℕ → Heap → List Input → Heap × List Input
  | [], h, inputs => (h, inputs)
  | chan :: rest, h, inputs =>
      let after := rewriteRestreamer cookie chan h inputs
      rewriteRestreamers cookie rest after.1 after.2

/-- Restreamers without the mark get a channel object of their own, and are to end. -/
def killRestreamers (cookie : ℤ) : Heap → List Input → Heap × List Input
  | h, [] => (h, [])
  | h, r :: rest =>
      if r.cookie ≠ cookie then
        let own := h.alloc (h.memory r.channel).copy
        let others := killRestreamers cookie own.2 rest
        (others.1, { r with channel := own.1, freechannel := true, dienow := true } :: others.2)
      else
        let others := killRestreamers cookie h rest
        (others.1, r :: others.2)

/-- The channels of the file are allocated one after the other. -/
def newChannels : Heap → List ChannelObject → Heap × List ℕ
  | h, [] => (h, [])
  | h, c :: rest =>
      let one := h.alloc c
      let others := newChannels one.2 rest
      (others.1, one.1 :: others.2)

/-- `loaded` is what the channels file holds, `none` when it can't be loaded. -/
def configLoadChannels (s : State) (loaded : Option (List ChannelObject)) (cookie : ℤ) : State :=
  match loaded with
  | none => s
  | some loaded =>
      let channels := newChannels s.heap loaded
      let rewritten := rewriteRestreamers cookie channels.2 channels.1 s.inputs
      let killed := killRestreamers cookie rewritten.1 rewritten.2
      { heap := killed.1
        channels := channels.2
        inputs := killed.2
        freed := s.freed ++ s.channels }

/-- One turn of the loop of `spawn_input_threads`. -/
def spawnInputThread (h : Heap) (inputs : List Input) (c : ℕ) : List Input :=
  if inputs.any fun r => r.name = h.name c then inputs else inputs ++ [inputNew (h.name c) c]

def spawnInputThreads (s : State) : State :=
  { s with inputs := s.channels.foldl (spawnInputThread s.heap) s.inputs }

/-- The input at place `i` leaves the list and is freed. -/
def proxyClose (s : State) (i : ℕ) : State :=
  match s.inputs[i]? with
  | none => s
  | some r =>
      { s with
        inputs := s.inputs.eraseIdx i
        freed := if r.freechannel then s.freed ++ [r.channel] else s.freed }

/-- What happens to the two lists. -/
inductive ReloadStep
  | load (loaded : Option (List ChannelObject)) (cookie : ℤ)
  | spawn
  | exit (i : ℕ)

def reloadStep (s : State) : ReloadStep → State
  | .load loaded cookie => configLoadChannels s loaded cookie
  | .spawn => spawnInputThreads s
  | .exit i => proxyClose s i

/-- Before the first load; `memory` is whatever the heap holds. -/
def start (memory : ℕ → ChannelObject) : State := ⟨⟨memory, 0⟩, [], [], []⟩

/-- The state after these steps. -/
def reloadAfter (memory : ℕ → ChannelObject) (steps : List ReloadStep) : State :=
  steps.foldl reloadStep (start memory)

theorem reloadAfter_concat (memory : ℕ → ChannelObject) (steps : List ReloadStep)
    (step : ReloadStep) :
    reloadAfter memory (steps ++ [step]) = reloadStep (reloadAfter memory steps) step := by
  simp [reloadAfter]

end Mptsd.Reload.Model
