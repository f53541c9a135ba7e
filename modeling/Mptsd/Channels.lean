/- Unit: Mptsd/Channels
   source: src/data.h, src/data.c (channel_new, chansrc_add, chansrc_next, chansrc_set)
   digest: A channel as the configuration builds it, with its PID window and its sources. -/

import Mathlib.Tactic

set_option autoImplicit false
set_option relaxedAutoImplicit false

namespace Mptsd.Channels

/-- `MAX_CHANNEL_SOURCES`. -/
def maxChannelSources : ℕ := 8

/-- The part of `CHANNEL` the stream handling reads. `sources` is the array of pointers, null
where nothing was added. -/
structure Channel where
  index : ℕ
  basePid : ℕ
  serviceId : ℤ
  pmtPid : ℕ
  radio : ℤ
  lcn : ℤ
  lcnVisible : ℤ
  id : String
  name : String
  eitMode : ℤ
  source : Option String
  sources : ℕ → Option String
  numSrc : ℕ
  currSrc : ℕ

def chansrcAdd (c : Channel) (src : String) : Channel :=
  if c.numSrc ≥ maxChannelSources - 1 then c
  else
    { c with
      sources := Function.update c.sources c.numSrc (some src)
      source := if c.numSrc = 0 then some src else c.source
      numSrc := c.numSrc + 1 }

def chansrcNext (c : Channel) : Channel :=
  if c.numSrc ≤ 1 then c
  else
    let next := c.currSrc + 1
    let currSrc := if next ≥ maxChannelSources - 1 ∨ c.sources next = none then 0 else next
    { c with currSrc, source := c.sources currSrc }

def chansrcSet (c : Channel) (srcId : ℕ) : Channel :=
  if srcId ≥ maxChannelSources - 1 ∨ c.sources srcId = none then c
  else { c with currSrc := srcId, source := c.sources srcId }

/-- `none` is the null pointer returned for an index outside 1..255. -/
def channelNew (serviceId isRadio : ℤ) (id name : String) (eitMode : ℤ) (source : String)
    (channelIndex lcn isLcnVisible : ℤ) : Option Channel :=
  if channelIndex ≤ 0 ∨ channelIndex ≥ 256 then none
  else
    some <| chansrcAdd
      { index := channelIndex.toNat
        basePid := channelIndex.toNat * 32
        serviceId
        pmtPid := channelIndex.toNat * 32
        radio := isRadio
        lcn
        lcnVisible := isLcnVisible
        id
        name
        eitMode
        source := none
        sources := fun _ => none
        numSrc := 0
        currSrc := 0 } source

theorem chansrcNext_frame (c : Channel) :
    (chansrcNext c).index = c.index ∧ (chansrcNext c).basePid = c.basePid ∧
      (chansrcNext c).serviceId = c.serviceId ∧ (chansrcNext c).eitMode = c.eitMode := by
  rw [chansrcNext]
  split <;> exact ⟨rfl, rfl, rfl, rfl⟩

/-- The PIDs set aside for the channel with index `i`. -/
def window (i : ℕ) : Set ℕ := {pid | 32 * i ≤ pid ∧ pid ≤ 32 * i + 31}

theorem mem_window {i pid : ℕ} : pid ∈ window i ↔ 32 * i ≤ pid ∧ pid ≤ 32 * i + 31 := Iff.rfl

instance (i pid : ℕ) : Decidable (pid ∈ window i) := decidable_of_iff _ mem_window.symm

theorem window_disjoint {i j pid : ℕ} (ne : i ≠ j) (hi : pid ∈ window i) : pid ∉ window j := by
  intro hj
  rw [mem_window] at hi hj
  omega

/-- What a channel made by `channel_new` looks like: its window starts at 32 times its index. -/
structure Made (c : Channel) : Prop where
  index_pos : 0 < c.index
  index_lt : c.index < 256
  basePid_eq : c.basePid = 32 * c.index
  pmtPid_eq : c.pmtPid = c.basePid

theorem channelNew_made {serviceId isRadio : ℤ} {id name : String} {eitMode : ℤ}
    {source : String} {channelIndex lcn isLcnVisible : ℤ} {c : Channel}
    (made : channelNew serviceId isRadio id name eitMode source channelIndex lcn isLcnVisible =
      some c) : Made c ∧ (c.index : ℤ) = channelIndex ∧ c.serviceId = serviceId ∧
        c.eitMode = eitMode := by
  rw [channelNew] at made
  split at made
  · cases made
  · rename_i inside
    obtain rfl := Option.some.inj made
    have bounds : 0 < channelIndex.toNat ∧ channelIndex.toNat < 256 := by omega
    refine ⟨⟨?_, ?_, ?_, ?_⟩, ?_, ?_, ?_⟩ <;> simp [chansrcAdd, maxChannelSources] <;> omega

/-- A television channel on one multicast source. -/
def sampleChannel (index : ℕ) (eitMode : ℤ) : Channel :=
  chansrcAdd
    { index
      basePid := index * 32
      serviceId := 100 + index
      pmtPid := index * 32
      radio := 0
      lcn := index
      lcnVisible := 1
      id := "tv"
      name := "Television"
      eitMode
      source := none
      sources := fun _ => none
      numSrc := 0
      currSrc := 0 } "udp://239.0.0.1:5000/"

theorem channelNew_sampleChannel {index : ℕ} (pos : 0 < index) (lt : index < 256) (eitMode : ℤ) :
    channelNew (100 + index) 0 "tv" "Television" eitMode "udp://239.0.0.1:5000/" index index 1 =
      some (sampleChannel index eitMode) := by
  rw [channelNew]
  rw [if_neg (by omega)]
  simp [sampleChannel]

theorem sampleChannel_made {index : ℕ} (pos : 0 < index) (lt : index < 256) (eitMode : ℤ) :
    Made (sampleChannel index eitMode) :=
  (channelNew_made (channelNew_sampleChannel pos lt eitMode)).1

end Mptsd.Channels
