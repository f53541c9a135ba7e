/- Unit: Mptsd/Intake/Worktime
   source: src/input.c (in_worktime), src/config.c (config_load_channels, worktime)
   digest: When a channel is in its worktime, and when two channels take turns. -/

import Mptsd.Lib.Arc
import Mptsd.Reload.Load

set_option autoImplicit false
set_option relaxedAutoImplicit false

namespace Mptsd.Intake.Worktime

open Mptsd.Channels (sampleChannel)
open Mptsd.Lib.Arc
open Mptsd.Reload.Load (LoadedChannel scanWorktime)

/-- The part of `struct tm` that is read. -/
structure Tm where
  tmSec : ℤ
  tmMin : ℤ
  tmHour : ℤ

def Tm.seconds (ltime : Tm) : ℤ := ltime.tmSec + ltime.tmMin * 60 + ltime.tmHour * 3600

/-- `in_worktime`; `ltime` is what `localtime_r` fills in. -/
def inWorktime (start stop : ℤ) (ltime : Tm) : ℤ :=
  if start = 0 ∧ stop = 0 then 1
  else
    let seconds := ltime.seconds
    if start > stop then
      if start ≥ seconds ∧ stop < seconds then 0 else 1
    else if start ≤ seconds ∧ stop > seconds then 1 else 0

/-- The channel may run. -/
def Works (c : LoadedChannel) (ltime : Tm) : Prop :=
  inWorktime c.worktimeStart c.worktimeEnd ltime = 1

instance (c : LoadedChannel) (ltime : Tm) : Decidable (Works c ltime) :=
  inferInstanceAs (Decidable (_ = _))

/-- The worktime of the channel as a part of the day. -/
def slot (c : LoadedChannel) : Set ℤ := arcCO c.worktimeStart c.worktimeEnd

section cases

variable {start stop : ℤ} (ltime : Tm)

private theorem inWorktime_of_lt (lt : start < stop) :
    inWorktime start stop ltime = 1 ↔ ltime.seconds ∈ arcCO start stop := by
  have set : ¬ (start = 0 ∧ stop = 0) := by omega
  have forward : ¬ start > stop := by omega
  simp only [inWorktime, if_neg set, if_neg forward]
  rw [mem_arcCO_of_le lt.le]
  constructor
  · intro one
    by_contra outside
    rw [if_neg (by omega)] at one
    omega
  · intro inside
    rw [if_pos inside]

private theorem inWorktime_of_gt (gt : stop < start) :
    inWorktime start stop ltime = 1 ↔ ltime.seconds ∈ arcOC start stop := by
  have set : ¬ (start = 0 ∧ stop = 0) := by omega
  have backward : start > stop := gt
  simp only [inWorktime, if_neg set, if_pos backward]
  rw [mem_arcOC_of_lt gt]
  constructor
  · intro one
    by_contra outside
    rw [if_pos (by omega)] at one
    omega
  · intro inside
    rw [if_neg (by omega)]

end cases

private theorem works_iff_slot {c : LoadedChannel} (distinct : c.worktimeStart ≠ c.worktimeEnd)
    (ltime : Tm) :
    (Works c ltime ↔ ltime.seconds ∈ slot c) ↔
      c.worktimeStart < c.worktimeEnd ∨
        ltime.seconds ≠ c.worktimeStart ∧ ltime.seconds ≠ c.worktimeEnd := by
  rcases lt_or_gt_of_ne distinct with lt | gt
  · exact iff_of_true (inWorktime_of_lt ltime lt) (Or.inl lt)
  · rw [Works, inWorktime_of_gt ltime gt, slot, mem_arcOC_iff_mem_arcCO distinct]
    exact (or_iff_right (not_lt.mpr gt.le)).symm

/-- Two channels whose worktimes complete each other take turns in their slots, in every second
that is not the end of one and the start of the other. -/
theorem take_turns_iff (a b : LoadedChannel) (distinct : a.worktimeStart ≠ a.worktimeEnd)
    (follows : b.worktimeStart = a.worktimeEnd) (precedes : b.worktimeEnd = a.worktimeStart)
    (ltime : Tm) :
    (Xor (Works a ltime) (Works b ltime) ∧ (Works a ltime ↔ ltime.seconds ∈ slot a) ∧
        (Works b ltime ↔ ltime.seconds ∈ slot b)) ↔
      ltime.seconds ≠ a.worktimeStart ∧ ltime.seconds ≠ a.worktimeEnd := by
  have distinct' : b.worktimeStart ≠ b.worktimeEnd := by omega
  have first := works_iff_slot distinct ltime
  have second := works_iff_slot distinct' ltime
  constructor
  · rintro ⟨-, inFirst, inSecond⟩
    have := first.mp inFirst
    have := second.mp inSecond
    omega
  · intro inside
    have inFirst := first.mpr (Or.inr inside)
    have inSecond := second.mpr (Or.inr (by omega))
    refine ⟨?_, inFirst, inSecond⟩
    rw [inFirst, inSecond, slot, slot, follows, precedes]
    exact xor_mem_arcCO distinct _

/-- A channel for the day and one for the night. -/
def dayChannel : LoadedChannel := ⟨sampleChannel 1 0, 8 * 3600, 20 * 3600⟩

def nightChannel : LoadedChannel := ⟨sampleChannel 2 0, 20 * 3600, 8 * 3600⟩

theorem take_turns_at_noon :
    (Xor (Works dayChannel ⟨0, 0, 12⟩) (Works nightChannel ⟨0, 0, 12⟩) ∧
        (Works dayChannel ⟨0, 0, 12⟩ ↔ Tm.seconds ⟨0, 0, 12⟩ ∈ slot dayChannel) ∧
        (Works nightChannel ⟨0, 0, 12⟩ ↔ Tm.seconds ⟨0, 0, 12⟩ ∈ slot nightChannel)) ↔
      Tm.seconds ⟨0, 0, 12⟩ ≠ dayChannel.worktimeStart ∧
        Tm.seconds ⟨0, 0, 12⟩ ≠ dayChannel.worktimeEnd :=
  take_turns_iff dayChannel nightChannel (by decide) rfl rfl ⟨0, 0, 12⟩

/-- At eight in the morning both run, at eight in the evening none of them. -/
theorem day_and_night_overlap :
    scanWorktime "08:00-20:00".toList = some (dayChannel.worktimeStart, dayChannel.worktimeEnd) ∧
      scanWorktime "20:00-08:00".toList =
        some (nightChannel.worktimeStart, nightChannel.worktimeEnd) ∧
      Works dayChannel ⟨0, 0, 8⟩ ∧ Works nightChannel ⟨0, 0, 8⟩ ∧
      ¬ Works dayChannel ⟨0, 0, 20⟩ ∧ ¬ Works nightChannel ⟨0, 0, 20⟩ := by
  refine ⟨by decide +kernel, by decide +kernel, by decide, by decide, by decide, by decide⟩

end Mptsd.Intake.Worktime
