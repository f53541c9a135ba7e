/- Unit: Mptsd/Sources
   source: src/data.c (channel_new, chansrc_add, chansrc_next, chansrc_set), src/data.h
   digest: The sources of a channel and the one in use, whatever is called on it. -/

import Mptsd.Channels
import Mptsd.Lib.Counter

set_option autoImplicit false
set_option relaxedAutoImplicit false

namespace Mptsd.Sources

open Mptsd.Channels
open Mptsd.Lib.Counter (cyclicRun perm_cyclicRun)

/-- The sources fill the array from its start on and leave its last place free, and `source` is the
one that `curr_src` counts. -/
structure Sourced (c : Channel) : Prop where
  numSrc_pos : 0 < c.numSrc
  numSrc_lt : c.numSrc < maxChannelSources
  sources : ∀ j, (c.sources j).isSome ↔ j < c.numSrc
  currSrc_lt : c.currSrc < c.numSrc
  source : c.source = c.sources c.currSrc

/-- A call of one of the source functions. -/
inductive SourceCall
  | add (src : String)
  | next
  | set (srcId : ℕ)

def sourceCall (c : Channel) : SourceCall → Channel
  | .add src => chansrcAdd c src
  | .next => chansrcNext c
  | .set srcId => chansrcSet c srcId

variable {c : Channel}

private theorem Sourced.sources_eq_none (h : Sourced c) {j : ℕ} :
    c.sources j = none ↔ c.numSrc ≤ j := by
  rw [← Option.not_isSome_iff_eq_none, h.sources, not_lt]

private theorem Sourced.past_end_iff (h : Sourced c) (j : ℕ) :
    (j ≥ maxChannelSources - 1 ∨ c.sources j = none) ↔ c.numSrc ≤ j := by
  have room := h.numSrc_lt
  rw [h.sources_eq_none]
  omega

theorem Sourced.chansrcNext_eq (h : Sourced c) :
    chansrcNext c =
      { c with
        currSrc := (c.currSrc + 1) % c.numSrc
        source := c.sources ((c.currSrc + 1) % c.numSrc) } := by
  have inside := h.currSrc_lt
  rw [chansrcNext]
  split
  · rename_i single
    have one : c.numSrc = 1 := by
      have := h.numSrc_pos
      omega
    have stays : (c.currSrc + 1) % c.numSrc = c.currSrc := by
      rw [one, Nat.mod_one]
      omega
    rw [stays, ← h.source]
  · have turned : (if c.currSrc + 1 ≥ maxChannelSources - 1 ∨ c.sources (c.currSrc + 1) = none
        then 0 else c.currSrc + 1) = (c.currSrc + 1) % c.numSrc := by
      rw [if_congr (h.past_end_iff _) rfl rfl]
      split
      · rw [show c.currSrc + 1 = c.numSrc by omega, Nat.mod_self]
      · rw [Nat.mod_eq_of_lt (by omega)]
    dsimp only
    rw [turned]

theorem Sourced.chansrcSet_eq (h : Sourced c) (srcId : ℕ) :
    chansrcSet c srcId =
      if srcId < c.numSrc then { c with currSrc := srcId, source := c.sources srcId } else c := by
  rw [chansrcSet]
  rw [if_congr (h.past_end_iff srcId) rfl rfl]
  by_cases inside : srcId < c.numSrc
  · rw [if_neg (by omega), if_pos inside]
  · rw [if_pos (by omega), if_neg inside]

theorem Sourced.choose (h : Sourced c) {j : ℕ} (inside : j < c.numSrc) :
    Sourced { c with currSrc := j, source := c.sources j } :=
  ⟨h.numSrc_pos, h.numSrc_lt, h.sources, inside, rfl⟩

theorem Sourced.add (h : Sourced c) (src : String) : Sourced (chansrcAdd c src) := by
  have positive := h.numSrc_pos
  have inside := h.currSrc_lt
  rw [chansrcAdd]
  split
  · exact h
  · rename_i more
    refine ⟨Nat.succ_pos _, ?_, ?_, ?_, ?_⟩
    · dsimp only
      omega
    · intro j
      show (Function.update c.sources c.numSrc (some src) j).isSome ↔ j < c.numSrc + 1
      rcases eq_or_ne j c.numSrc with rfl | other
      · simp
      · rw [Function.update_of_ne other, h.sources]
        omega
    · dsimp only
      omega
    · dsimp only
      rw [if_neg (by omega), Function.update_of_ne (by omega), h.source]

theorem Sourced.next (h : Sourced c) : Sourced (chansrcNext c) := by
  rw [h.chansrcNext_eq]
  exact h.choose (Nat.mod_lt _ h.numSrc_pos)

theorem Sourced.set (h : Sourced c) (srcId : ℕ) : Sourced (chansrcSet c srcId) := by
  rw [h.chansrcSet_eq]
  split
  · rename_i inside
    exact h.choose inside
  · exact h

private theorem Sourced.sourceCall (h : Sourced c) (call : SourceCall) :
    Sourced (sourceCall c call) := by
  cases call with
  | add src => exact h.add src
  | next => exact h.next
  | set srcId => exact h.set srcId

private theorem Sourced.sources_sourceCall (h : Sourced c) (call : SourceCall) :
    c.numSrc ≤ (Sources.sourceCall c call).numSrc ∧
      ∀ j < c.numSrc, (Sources.sourceCall c call).sources j = c.sources j := by
  cases call with
  | add src =>
      unfold Sources.sourceCall chansrcAdd
      dsimp only
      split
      · exact ⟨le_rfl, fun _ _ => rfl⟩
      · refine ⟨Nat.le_succ _, fun j inside => ?_⟩
        exact Function.update_of_ne inside.ne _ _
  | next =>
      have same : Sources.sourceCall c .next = chansrcNext c := rfl
      rw [same, h.chansrcNext_eq]
      exact ⟨le_rfl, fun _ _ => rfl⟩
  | set srcId =>
      have same : Sources.sourceCall c (.set srcId) = chansrcSet c srcId := rfl
      rw [same, h.chansrcSet_eq]
      split <;> exact ⟨le_rfl, fun _ _ => rfl⟩

theorem sourced_channelNew {serviceId isRadio : ℤ} {id name : String} {eitMode : ℤ}
    {source : String} {channelIndex lcn isLcnVisible : ℤ}
    (made : channelNew serviceId isRadio id name eitMode source channelIndex lcn isLcnVisible =
      some c) : Sourced c ∧ c.numSrc = 1 ∧ c.source = some source := by
  rw [channelNew] at made
  split at made
  · cases made
  · obtain rfl := Option.some.inj made
    refine ⟨⟨?_, ?_, ?_, ?_, ?_⟩, ?_, ?_⟩
    · simp [chansrcAdd, maxChannelSources]
    · simp [chansrcAdd, maxChannelSources]
    · intro j
      rcases eq_or_ne j 0 with rfl | other
      · simp [chansrcAdd, maxChannelSources]
      · simp [chansrcAdd, maxChannelSources, other]
    · simp [chansrcAdd, maxChannelSources]
    · simp [chansrcAdd, maxChannelSources]
    · simp [chansrcAdd, maxChannelSources]
    · simp [chansrcAdd, maxChannelSources]

private theorem Sourced.calls (h : Sourced c) (calls : List SourceCall) :
    Sourced (calls.foldl Sources.sourceCall c) := by
  induction calls generalizing c with
  | nil => exact h
  | cons call rest ih => exact ih (h.sourceCall call)

theorem Sourced.failovers (h : Sourced c) (k : ℕ) :
    chansrcNext^[k] c =
      { c with
        currSrc := (c.currSrc + k) % c.numSrc
        source := c.sources ((c.currSrc + k) % c.numSrc) } := by
  induction k with
  | zero =>
      rw [Nat.add_zero, Nat.mod_eq_of_lt h.currSrc_lt, ← h.source]
      rfl
  | succ k ih =>
      have inside : (c.currSrc + k) % c.numSrc < c.numSrc := Nat.mod_lt _ h.numSrc_pos
      rw [Function.iterate_succ_apply', ih, (h.choose inside).chansrcNext_eq]
      simp only [Nat.mod_add_mod, Nat.add_assoc]

private theorem Sourced.round (h : Sourced c) :
    ((List.range c.numSrc).map fun k => (chansrcNext^[k + 1] c).currSrc).Perm
        (List.range c.numSrc) ∧ chansrcNext^[c.numSrc] c = c := by
  constructor
  · have indices : ((List.range c.numSrc).map fun k => (chansrcNext^[k + 1] c).currSrc) =
        cyclicRun c.numSrc (c.currSrc + 1) c.numSrc := by
      apply List.map_congr_left
      intro k _
      rw [h.failovers]
      dsimp only
      rw [Nat.add_right_comm, Nat.add_assoc]
    rw [indices]
    exact perm_cyclicRun _ _
  · rw [h.failovers, Nat.add_mod_right, Nat.mod_eq_of_lt h.currSrc_lt, ← h.source]

private theorem Sourced.chansrcSet_ne_iff (h : Sourced c) (srcId : ℕ) :
    chansrcSet c srcId ≠ c ↔ srcId < c.numSrc ∧ srcId ≠ c.currSrc := by
  rw [h.chansrcSet_eq]
  split
  · rename_i inside
    rw [and_iff_right inside, not_iff_not]
    constructor
    · intro same
      exact congrArg Channel.currSrc same
    · rintro rfl
      rw [← h.source]
  · rename_i outside
    simp [outside]

/-- Whatever is called on a channel made by `channel_new`: its sources stay in their places at the
start of the array, the one in use is the one that is counted, `chansrc_next` goes round them, and
`chansrc_set` takes every other place below `num_src` and nothing else. -/
theorem sources_kept (serviceId isRadio : ℤ) (id name : String) (eitMode : ℤ) (source : String)
    (channelIndex lcn isLcnVisible : ℤ) (made : Channel)
    (new : channelNew serviceId isRadio id name eitMode source channelIndex lcn isLcnVisible =
      some made) (calls : List SourceCall) :
    let c := calls.foldl sourceCall made
    Sourced c ∧
      (chansrcNext c).currSrc = (c.currSrc + 1) % c.numSrc ∧
      ((List.range c.numSrc).map fun k => (chansrcNext^[k + 1] c).currSrc).Perm
        (List.range c.numSrc) ∧ chansrcNext^[c.numSrc] c = c ∧
      (∀ srcId, (srcId < c.numSrc → (chansrcSet c srcId).currSrc = srcId) ∧
        (chansrcSet c srcId ≠ c ↔ srcId < c.numSrc ∧ srcId ≠ c.currSrc)) ∧
      ∀ call, c.numSrc ≤ (sourceCall c call).numSrc ∧
        ∀ j < c.numSrc, (sourceCall c call).sources j = c.sources j := by
  intro c
  have sourced : Sourced c := (sourced_channelNew new).1.calls calls
  obtain ⟨tried, back⟩ := sourced.round
  refine ⟨sourced, ?_, tried, back, fun srcId => ⟨?_, sourced.chansrcSet_ne_iff srcId⟩,
    sourced.sources_sourceCall⟩
  · rw [sourced.chansrcNext_eq]
  · intro inside
    rw [sourced.chansrcSet_eq, if_pos inside]

private theorem channelNew_tv :
    channelNew 101 0 "tv" "Television" 0 "udp://239.0.0.1:5000/" 1 1 1 =
      some (sampleChannel 1 0) := by
  simpa using channelNew_sampleChannel Nat.one_pos (by omega) 0

/-- A new channel with a second source, after one failover. -/
theorem sources_kept_two :
    ((List.range 2).map fun k =>
        (chansrcNext^[k + 1]
          ([SourceCall.add "udp://239.0.0.2:5000/", .next].foldl sourceCall
            (sampleChannel 1 0))).currSrc).Perm (List.range 2) := by
  exact (sources_kept 101 0 "tv" "Television" 0 "udp://239.0.0.1:5000/" 1 1 1 (sampleChannel 1 0)
    channelNew_tv [.add "udp://239.0.0.2:5000/", .next]).2.2.1

/-- Setting the source that is in use already changes nothing, although its number is below
`num_src`. -/
theorem set_in_use :
    channelNew 101 0 "tv" "Television" 0 "udp://239.0.0.1:5000/" 1 1 1 =
        some (sampleChannel 1 0) ∧
      0 < (sampleChannel 1 0).numSrc ∧ chansrcSet (sampleChannel 1 0) 0 = sampleChannel 1 0 :=
  ⟨channelNew_tv, by decide, rfl⟩

end Mptsd.Sources
