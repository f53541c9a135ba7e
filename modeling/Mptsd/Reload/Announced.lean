/- Unit: Mptsd/Reload/Announced
   source: src/mptsd.c (spawn_input_threads), src/output_psi.c (output_psi_init_pat)
   digest: Which of the channels that the PAT announces have an input. -/

import Mptsd.Reload.Load
import Mptsd.Reload.Ownership

set_option autoImplicit false
set_option relaxedAutoImplicit false

namespace Mptsd.Reload.Announced

open Mptsd.Channels
open Mptsd.Reload.Model
open Mptsd.Reload.Ownership (newChannels_spec)
open Mptsd.Reload.Load (parseChannels)

/-- `output_psi_init_pat`: the programs of the PAT, one for each channel of the list. -/
def outputPsiInitPat (h : Heap) (channels : List ℕ) : List (ℤ × ℕ) :=
  channels.map fun a => ((h.memory a).channel.serviceId, (h.memory a).channel.pmtPid)

/-- Every program of the PAT is that of a channel which exactly one input points to. -/
def AllServed (s : State) : Prop :=
  ∀ (k : ℕ) (program : ℤ × ℕ), (outputPsiInitPat s.heap s.channels)[k]? = some program →
    ∃ a, s.channels[k]? = some a ∧ (s.inputs.map Input.channel).count a = 1

/-- The program after its channels have been loaded, and before it spawns its threads. -/
def loadedState (memory : ℕ → ChannelObject) (loaded : List ChannelObject) (cookie : ℤ) : State :=
  reloadAfter memory [.load (some loaded) cookie]

private theorem allServed_iff (s : State) :
    AllServed s ↔ ∀ a ∈ s.channels, (s.inputs.map Input.channel).count a = 1 := by
  constructor
  · intro served a member
    obtain ⟨k, found⟩ := List.mem_iff_getElem?.mp member
    obtain ⟨b, same, once⟩ := served k _ (by rw [outputPsiInitPat, List.getElem?_map, found]; rfl)
    obtain rfl := Option.some.inj (found.symm.trans same)
    exact once
  · intro served k program found
    rw [outputPsiInitPat, List.getElem?_map] at found
    obtain ⟨a, listed, -⟩ := Option.map_eq_some_iff.mp found
    exact ⟨a, listed, served a (List.mem_of_getElem? listed)⟩

section spawning

variable {h : Heap} {channels : List ℕ} {inputs : List Input}

/-- Inputs as the spawning makes them: no two of one name, and every one named like its channel. -/
structure Spawned (h : Heap) (inputs : List Input) : Prop where
  names : (inputs.map Input.name).Nodup
  named : ∀ r ∈ inputs, r.name = h.name r.channel

private theorem Spawned.nil : Spawned h [] := ⟨List.nodup_nil, List.forall_mem_nil _⟩

private theorem spawnInputThread_cases (h : Heap) (inputs : List Input) (c : ℕ) :
    (∃ r ∈ inputs, r.name = h.name c) ∧ spawnInputThread h inputs c = inputs ∨
      (∀ r ∈ inputs, r.name ≠ h.name c) ∧
        spawnInputThread h inputs c = inputs ++ [inputNew (h.name c) c] := by
  rw [spawnInputThread]
  by_cases active : inputs.any (fun r => r.name = h.name c) = true
  · left
    exact ⟨by simpa using active, if_pos active⟩
  · right
    exact ⟨by simpa using active, if_neg active⟩

private theorem Spawned.turn (spawned : Spawned h inputs) (c : ℕ) :
    Spawned h (spawnInputThread h inputs c) := by
  rcases spawnInputThread_cases h inputs c with ⟨-, same⟩ | ⟨absent, added⟩
  · rw [same]
    exact spawned
  · rw [added]
    constructor
    · rw [List.map_append, List.nodup_append]
      refine ⟨spawned.names, List.nodup_singleton _, ?_⟩
      rintro name member other single rfl
      obtain ⟨r, inside, rfl⟩ := List.mem_map.mp member
      exact absent r inside (by simpa [inputNew] using single)
    · intro r member
      rcases List.mem_append.mp member with before | new
      · exact spawned.named r before
      · rw [List.mem_singleton.mp new]
        rfl

private theorem Spawned.run (spawned : Spawned h inputs) (channels : List ℕ) :
    Spawned h (channels.foldl (spawnInputThread h) inputs) := by
  induction channels generalizing inputs with
  | nil => exact spawned
  | cons c rest ih => exact ih (spawned.turn c)

private theorem names_turn (h : Heap) (inputs : List Input) (c : ℕ) :
    (∀ r ∈ inputs, r ∈ spawnInputThread h inputs c) ∧
      ∃ r ∈ spawnInputThread h inputs c, r.name = h.name c := by
  rcases spawnInputThread_cases h inputs c with ⟨active, same⟩ | ⟨-, added⟩
  · rw [same]
    exact ⟨fun _ => id, active⟩
  · rw [added]
    exact ⟨fun r member => List.mem_append_left _ member,
      inputNew (h.name c) c, List.mem_append_right _ (List.mem_singleton_self _), rfl⟩

private theorem names_spawned (channels : List ℕ) (inputs : List Input) :
    (∀ r ∈ inputs, r ∈ channels.foldl (spawnInputThread h) inputs) ∧
      ∀ c ∈ channels, ∃ r ∈ channels.foldl (spawnInputThread h) inputs, r.name = h.name c := by
  induction channels generalizing inputs with
  | nil => exact ⟨fun _ => id, List.forall_mem_nil _⟩
  | cons c rest ih =>
      obtain ⟨kept, named⟩ := ih (spawnInputThread h inputs c)
      obtain ⟨stay, r, inside, name⟩ := names_turn h inputs c
      rw [List.foldl_cons, List.forall_mem_cons]
      exact ⟨fun q member => kept q (stay q member), ⟨r, kept r inside, name⟩, named⟩

private theorem spawn_eq_self (active : ∀ c ∈ channels, ∃ r ∈ inputs, r.name = h.name c) :
    channels.foldl (spawnInputThread h) inputs = inputs := by
  induction channels with
  | nil => rfl
  | cons c rest ih =>
      rw [List.forall_mem_cons] at active
      rcases spawnInputThread_cases h inputs c with ⟨-, same⟩ | ⟨absent, -⟩
      · rw [List.foldl_cons, same]
        exact ih active.2
      · obtain ⟨r, inside, name⟩ := active.1
        exact absurd name (absent r inside)

private theorem channel_spawned (distinct : (channels.map h.name).Nodup)
    (absent : ∀ c ∈ channels, ∀ r ∈ inputs, r.name ≠ h.name c) :
    (channels.foldl (spawnInputThread h) inputs).map Input.channel =
      inputs.map Input.channel ++ channels := by
  induction channels generalizing inputs with
  | nil => simp
  | cons c rest ih =>
      obtain ⟨first, others⟩ := List.nodup_cons.mp distinct
      rw [List.forall_mem_cons] at absent
      rcases spawnInputThread_cases h inputs c with ⟨⟨r, inside, name⟩, -⟩ | ⟨-, added⟩
      · exact absurd name (absent.1 r inside)
      · rw [List.foldl_cons, added, ih others]
        · simp [inputNew]
        · intro c' later r member
          rcases List.mem_append.mp member with before | new
          · exact absent.2 c' later r before
          · rw [List.mem_singleton.mp new]
            intro same
            exact first (List.mem_map.mpr ⟨c', later, same.symm⟩)

private theorem Spawned.served_inj (spawned : Spawned h inputs) {a b : ℕ}
    (one : a ∈ inputs.map Input.channel) (two : b ∈ inputs.map Input.channel)
    (same : h.name a = h.name b) : a = b := by
  obtain ⟨r, inside, rfl⟩ := List.mem_map.mp one
  obtain ⟨q, inside', rfl⟩ := List.mem_map.mp two
  rw [← spawned.named r inside, ← spawned.named q inside'] at same
  rw [List.inj_on_of_nodup_map spawned.names inside inside' same]

private theorem served_spawned_iff (channels : List ℕ) (addresses : channels.Nodup) :
    (∀ a ∈ channels,
        ((channels.foldl (spawnInputThread h) []).map Input.channel).count a = 1) ↔
      (channels.map h.name).Nodup := by
  constructor
  · intro served
    apply List.Nodup.map_on _ addresses
    intro a hₐ b hᵦ same
    refine (Spawned.nil.run channels).served_inj ?_ ?_ same
    · exact List.count_pos_iff.mp (by rw [served a hₐ]; exact Nat.one_pos)
    · exact List.count_pos_iff.mp (by rw [served b hᵦ]; exact Nat.one_pos)
  · intro distinct a member
    rw [channel_spawned distinct (fun _ _ => List.forall_mem_nil _), List.map_nil, List.nil_append]
    exact List.count_eq_one_of_mem addresses member

end spawning

section start

variable (memory : ℕ → ChannelObject) (loaded : List ChannelObject) (cookie : ℤ)

private theorem loadedState_eq :
    loadedState memory loaded cookie =
      ⟨(newChannels ⟨memory, 0⟩ loaded).1, (newChannels ⟨memory, 0⟩ loaded).2, [], []⟩ := by
  have idle : ∀ (chans : List ℕ) (h : Heap), rewriteRestreamers cookie chans h [] = (h, []) := by
    intro chans
    induction chans with
    | nil => exact fun _ => rfl
    | cons c rest ih => exact ih
  rw [loadedState, reloadAfter]
  simp only [List.foldl_cons, List.foldl_nil, reloadStep, configLoadChannels, start, idle]
  rfl

private theorem names_loadedState :
    (loadedState memory loaded cookie).channels.Nodup ∧
      (loadedState memory loaded cookie).channels.map (loadedState memory loaded cookie).heap.name =
        loaded.map fun c => c.channel.name := by
  obtain ⟨-, addresses, -, names⟩ := newChannels_spec ⟨memory, 0⟩ loaded
  rw [loadedState_eq]
  exact ⟨by rw [addresses]; exact List.nodup_range', names⟩

/-- With the threads spawned for a list of channels, the program serves each channel of its PAT by
exactly one input, and spawning again adds nothing, if and only if no two channels of the list have
one name. -/
theorem served_once_iff (memory : ℕ → ChannelObject) (loaded : List ChannelObject) (cookie : ℤ) :
    (AllServed (spawnInputThreads (loadedState memory loaded cookie)) ∧
        spawnInputThreads (spawnInputThreads (loadedState memory loaded cookie)) =
          spawnInputThreads (loadedState memory loaded cookie)) ↔
      (loaded.map fun c => c.channel.name).Nodup := by
  obtain ⟨addresses, names⟩ := names_loadedState memory loaded cookie
  have empty : (loadedState memory loaded cookie).inputs = [] := by rw [loadedState_eq]
  have again : spawnInputThreads (spawnInputThreads (loadedState memory loaded cookie)) =
      spawnInputThreads (loadedState memory loaded cookie) := by
    unfold spawnInputThreads
    dsimp only
    rw [spawn_eq_self (names_spawned _ _).2]
  rw [and_iff_left again, allServed_iff, ← names, ← served_spawned_iff _ addresses]
  rw [spawnInputThreads]
  rw [empty]

end start

/-- Two sections of one name, on different services. -/
def twoSections : Ini.Dictionary := fun key =>
  List.lookup key [("channel1", none), ("channel1:service_id", some "1"),
    ("channel1:id", some "btv"), ("channel1:name", some "bTV"),
    ("channel1:source1", some "udp://239.0.0.1:5000/"), ("channel2", none),
    ("channel2:service_id", some "2"), ("channel2:id", some "btv2"),
    ("channel2:name", some "bTV"), ("channel2:source1", some "udp://239.0.0.2:5000/")]

/-- Both channels are loaded and announced, and one of them has no input. -/
theorem second_section_unserved :
    ∃ (file : Load.ChannelsFile) (objects : List ChannelObject),
      parseChannels twoSections = some file ∧
        objects.map ChannelObject.channel = file.channels.map Load.LoadedChannel.channel ∧
        objects.length = 2 ∧
        ∀ memory, ¬ AllServed (spawnInputThreads (loadedState memory objects 1)) := by
  have computed : (Load.loadSections twoSections (List.range' 1 31)).map
      (fun channels => channels.map fun c => c.channel.name) = some ["bTV", "bTV"] := by
    decide +kernel
  obtain ⟨channels, loaded, names⟩ := Option.map_eq_some_iff.mp computed
  obtain ⟨objects, same⟩ := Load.objects_of_loaded (by decide) loaded
  have twice : objects.map (fun c => c.channel.name) = ["bTV", "bTV"] := by
    rw [← names]
    simpa [Function.comp_def] using congrArg (List.map Channel.name) same
  have parsed : ∃ file, parseChannels twoSections = some file ∧ file.channels = channels := by
    rw [parseChannels, if_neg (by decide +kernel), loaded]
    exact ⟨_, rfl, rfl⟩
  obtain ⟨file, parsed, rfl⟩ := parsed
  refine ⟨file, objects, parsed, same, by simpa using congrArg List.length twice, ?_⟩
  intro memory served
  obtain ⟨addresses, named⟩ := names_loadedState memory objects 1
  rw [allServed_iff] at served
  have empty : (loadedState memory objects 1).inputs = [] := by rw [loadedState_eq]
  have distinct := (served_spawned_iff _ addresses).mp (by
    rw [spawnInputThreads] at served
    rwa [empty] at served)
  rw [named, twice] at distinct
  simp at distinct

end Mptsd.Reload.Announced
