/- Unit: Mptsd/PidMap
   source: src/pidref.c (pidref_init, pidref_add, pidref_del, pidref_get_new_pid)
   digest: The table of rewritten PIDs under any sequence of additions and deletions, and when it is
   a finite map. -/

import Mptsd.Lib.Lockstep
import Mptsd.Lib.Slots
import Mptsd.PidTable

set_option autoImplicit false
set_option relaxedAutoImplicit false

namespace Mptsd.PidMap

open Mptsd.Lib.Lockstep (run)
open Mptsd.Lib.Slots
open Mptsd.PidTable

/-- Original PIDs of the calls; zero marks the free entries. -/
abbrev OrgPid := { pid : ℕ // pid ≠ 0 }

abbrev PidCall := Call OrgPid ℕ

def pidCall (ref : Pidref) : PidCall → ℕ × Pidref
  | .add orgPid newPid => pidrefAdd ref orgPid newPid
  | .del orgPid => pidrefDel ref orgPid

/-- The table after a row of calls. -/
def tableAfter (num basePid : ℕ) (calls : List PidCall) : Pidref :=
  (run pidCall (pidrefInit num basePid) calls).2

/-- The new PIDs of all entries for an original PID, in the order of the table. -/
def newPids (orgPid : ℕ) (entries : List PidrefEntry) : List ℕ :=
  (entries.filter (fun entry => entry.orgPid = orgPid)).map PidrefEntry.newPid

/-- The entries in front of the first free one. -/
def inFront (entries : List PidrefEntry) : List PidrefEntry :=
  entries.takeWhile (fun entry => entry.orgPid ≠ 0)

def entriesUsed (entries : List PidrefEntry) : ℕ :=
  entries.countP (fun entry => entry.orgPid ≠ 0)

/-- A PID is added only while it has no entry, at every call that finds room. -/
def AddsFresh (ref : Pidref) : List PidCall → Prop
  | [] => True
  | .add orgPid newPid :: rest =>
      ((pidrefAdd ref orgPid newPid).1 = 1 → newPids orgPid ref.entries = []) ∧
        AddsFresh (pidrefAdd ref orgPid newPid).2 rest
  | .del orgPid :: rest => AddsFresh (pidrefDel ref orgPid).2 rest

section slots

/-- An entry as a slot. -/
def slotOf (entry : PidrefEntry) : Option (OrgPid × ℕ) :=
  if free : entry.orgPid = 0 then none else some (⟨entry.orgPid, free⟩, entry.newPid)

def slotsOf (ref : Pidref) : List (Option (OrgPid × ℕ)) := ref.entries.map slotOf

variable {entry : PidrefEntry} {entries : List PidrefEntry} {orgPid : OrgPid} {newPid : ℕ}

private theorem slotOf_free (free : entry.orgPid = 0) : slotOf entry = none := dif_pos free

private theorem slotOf_taken (taken : entry.orgPid ≠ 0) :
    slotOf entry = some (⟨entry.orgPid, taken⟩, entry.newPid) := dif_neg taken

private theorem isSome_slotOf : (slotOf entry).isSome = decide (entry.orgPid ≠ 0) := by
  by_cases free : entry.orgPid = 0
  · rw [slotOf_free free, free]
    rfl
  · rw [slotOf_taken free]
    simp [free]

private theorem recorded_map_slotOf :
    recorded orgPid (entries.map slotOf) = newPids orgPid entries := by
  induction entries with
  | nil => rfl
  | cons entry rest ih =>
      rw [List.map_cons, newPids]
      by_cases free : entry.orgPid = 0
      · have other : ¬ entry.orgPid = orgPid := fun same => orgPid.2 (same.symm.trans free)
        rw [slotOf_free free, recorded_cons_none, ih,
          List.filter_cons_of_neg (by simpa using other), newPids]
      · rw [slotOf_taken free]
        by_cases same : entry.orgPid = orgPid
        · rw [recorded_cons_self (Subtype.ext same), ih,
            List.filter_cons_of_pos (by simpa using same), List.map_cons, newPids]
        · rw [recorded_cons_ne (fun eq => same (congrArg Subtype.val eq)), ih,
            List.filter_cons_of_neg (by simpa using same), newPids]

private theorem front_map_slotOf : front (entries.map slotOf) = (inFront entries).map slotOf := by
  have test : Option.isSome ∘ slotOf = fun entry => decide (entry.orgPid ≠ 0) :=
    funext fun _ => isSome_slotOf
  rw [front, List.takeWhile_map, test, inFront]

private theorem used_map_slotOf : used (entries.map slotOf) = entriesUsed entries := by
  have test : Option.isSome ∘ slotOf = fun entry => decide (entry.orgPid ≠ 0) :=
    funext fun _ => isSome_slotOf
  rw [used, List.countP_map, test, entriesUsed]

private theorem fill_map_slotOf : fill orgPid newPid (entries.map slotOf) =
    (fillFree orgPid newPid entries).map (List.map slotOf) := by
  induction entries with
  | nil => rfl
  | cons entry rest ih =>
      by_cases free : entry.orgPid = 0
      · have here : slotOf ⟨orgPid, newPid⟩ = some (orgPid, newPid) := slotOf_taken orgPid.2
        rw [List.map_cons, slotOf_free free, fill, fillFree, if_pos free, Option.map_some,
          List.map_cons, here]
      · rw [List.map_cons, slotOf_taken free, fill, ih, fillFree, if_neg free, Option.map_map,
          Option.map_map, ← slotOf_taken free]
        rfl

private theorem clear_map_slotOf : clear orgPid (entries.map slotOf) =
    (clearFirst orgPid entries).map (List.map slotOf) := by
  induction entries with
  | nil => rfl
  | cons entry rest ih =>
      by_cases free : entry.orgPid = 0
      · have other : ¬ entry.orgPid = orgPid := fun same => orgPid.2 (same.symm.trans free)
        rw [List.map_cons, slotOf_free free, clear, ih, clearFirst, if_neg other, Option.map_map,
          Option.map_map, ← slotOf_free free]
        rfl
      · rw [List.map_cons, slotOf_taken free, clear, clearFirst]
        by_cases same : entry.orgPid = orgPid
        · rw [if_pos (Subtype.ext same), if_pos same]
          rfl
        · rw [if_neg (fun eq => same (congrArg Subtype.val eq)), if_neg same, ih, Option.map_map,
            Option.map_map, ← slotOf_taken free]
          rfl

private theorem pidrefGetNewPid_eq (ref : Pidref) (orgPid : OrgPid) :
    pidrefGetNewPid ref orgPid = (recorded orgPid (slotsOf ref)).head?.getD 0 := by
  rw [slotsOf, recorded_map_slotOf, newPids, List.head?_map, List.head?_filter, pidrefGetNewPid,
    if_neg orgPid.2]
  cases ref.entries.find? (fun entry => entry.orgPid = orgPid.1) <;> rfl

private theorem pidCall_slotsOf (ref : Pidref) (c : PidCall) :
    (pidCall ref c).1 = (slotsStep (slotsOf ref) c).1 ∧
      slotsOf (pidCall ref c).2 = (slotsStep (slotsOf ref) c).2 := by
  cases c with
  | add orgPid newPid =>
      rw [pidCall, pidrefAdd, if_neg orgPid.2, slotsStep, slotsOf, fill_map_slotOf]
      cases fillFree orgPid newPid ref.entries <;> exact ⟨rfl, rfl⟩
  | del orgPid =>
      rw [pidCall, pidrefDel, if_neg orgPid.2, slotsStep, slotsOf, clear_map_slotOf]
      cases clearFirst orgPid ref.entries <;> exact ⟨rfl, rfl⟩

end slots

section calls

variable (ref : Pidref)

@[simp] theorem pidrefGetNewPid_zero : pidrefGetNewPid ref 0 = 0 := if_pos rfl

private theorem lookup_congr {ref ref' : Pidref} {pid : ℕ}
    (same : ∀ pos : pid ≠ 0, recorded (⟨pid, pos⟩ : OrgPid) (slotsOf ref) =
      recorded ⟨pid, pos⟩ (slotsOf ref')) :
    pidrefGetNewPid ref pid = pidrefGetNewPid ref' pid := by
  by_cases zero : pid = 0
  · subst zero
    rw [pidrefGetNewPid_zero, pidrefGetNewPid_zero]
  · have here := pidrefGetNewPid_eq ref ⟨pid, zero⟩
    have there := pidrefGetNewPid_eq ref' ⟨pid, zero⟩
    rw [same zero] at here
    exact here.trans there.symm

private theorem lookup_other (c : PidCall) {pid : ℕ} (other : pid ≠ c.key) :
    pidrefGetNewPid (pidCall ref c).2 pid = pidrefGetNewPid ref pid := by
  apply lookup_congr
  intro pos
  have ne : (⟨pid, pos⟩ : OrgPid) ≠ c.key := fun eq => other (congrArg Subtype.val eq)
  rw [(pidCall_slotsOf ref c).2]
  exact (slotsStep_frame (slotsOf ref) c).2.1 _ ne

private theorem lookup_refused (c : PidCall) (refused : (pidCall ref c).1 = 0) (pid : ℕ) :
    pidrefGetNewPid (pidCall ref c).2 pid = pidrefGetNewPid ref pid := by
  apply lookup_congr
  intro pos
  rw [(pidCall_slotsOf ref c).1] at refused
  rw [(pidCall_slotsOf ref c).2, (slotsStep_frame (slotsOf ref) c).2.2 refused]

private theorem lookup_added (orgPid : OrgPid) (newPid : ℕ)
    (added : (pidrefAdd ref orgPid newPid).1 = 1) :
    pidrefGetNewPid (pidrefAdd ref orgPid newPid).2 orgPid =
      (newPids orgPid (inFront ref.entries)).head?.getD newPid := by
  have step := pidCall_slotsOf ref (.add orgPid newPid)
  rw [pidCall] at step
  rw [pidrefGetNewPid_eq, step.2]
  rcases slotsStep_add (slotsOf ref) orgPid newPid with ⟨zero, -⟩ | ⟨-, filled, -⟩
  · omega
  · obtain ⟨-, -, -, behind, -, own⟩ := fill_eq_some filled
    rw [own, slotsOf, front_map_slotOf, recorded_map_slotOf]
    cases newPids orgPid (inFront ref.entries) <;> rfl

private theorem lookup_deleted (orgPid : OrgPid) (deleted : (pidrefDel ref orgPid).1 = 1) :
    pidrefGetNewPid (pidrefDel ref orgPid).2 orgPid =
      (newPids orgPid ref.entries).tail.head?.getD 0 := by
  have step := pidCall_slotsOf ref (.del orgPid)
  rw [pidCall] at step
  rw [pidrefGetNewPid_eq, step.2]
  rcases slotsStep_del (slotsOf ref) orgPid with ⟨zero, -⟩ | ⟨-, cleared, -⟩
  · omega
  · obtain ⟨-, -, -, gone, own⟩ := clear_eq_some cleared
    have list : recorded orgPid (slotsOf ref) = newPids orgPid ref.entries := recorded_map_slotOf
    rw [← list, own, List.tail_cons]

private theorem added_iff (orgPid : OrgPid) (newPid : ℕ) :
    (pidrefAdd ref orgPid newPid).1 = 1 ↔ entriesUsed ref.entries < ref.entries.length := by
  have step := (pidCall_slotsOf ref (.add orgPid newPid)).1
  have count : used (slotsOf ref) = entriesUsed ref.entries := used_map_slotOf
  have length : (slotsOf ref).length = ref.entries.length := List.length_map _
  rw [pidCall] at step
  rcases slotsStep_add (slotsOf ref) orgPid newPid with ⟨zero, -, full⟩ | ⟨one, -, room⟩
  · omega
  · omega

private theorem deleted_iff (orgPid : OrgPid) :
    (pidrefDel ref orgPid).1 = 1 ↔ newPids orgPid ref.entries ≠ [] := by
  have step := (pidCall_slotsOf ref (.del orgPid)).1
  rw [pidCall] at step
  rw [← recorded_map_slotOf, step]
  rcases slotsStep_del (slotsOf ref) orgPid with ⟨zero, -, nothing⟩ | ⟨one, -, some⟩
  · rw [slotsOf] at nothing
    simp [zero, nothing]
  · exact ⟨fun _ => some, fun _ => one⟩

end calls

section run

private theorem length_pidCall (ref : Pidref) (c : PidCall) :
    (pidCall ref c).2.entries.length = ref.entries.length := by
  have length : ∀ r : Pidref, (slotsOf r).length = r.entries.length := fun r => List.length_map _
  rw [← length, ← length, (pidCall_slotsOf ref c).2]
  exact (slotsStep_frame (slotsOf ref) c).1

private theorem length_tableAfter (num basePid : ℕ) (calls : List PidCall) :
    (tableAfter num basePid calls).entries.length = num := by
  have keeps : ∀ ref : Pidref, (run pidCall ref calls).2.entries.length = ref.entries.length := by
    induction calls with
    | nil => exact fun _ => rfl
    | cons c rest ih => exact fun ref => (ih _).trans (length_pidCall ref c)
  rw [tableAfter, keeps, pidrefInit, List.length_replicate]

private theorem map_of_fresh {n : ℕ} {m : Finmap fun _ : OrgPid => ℕ} {ref : Pidref}
    (holds : Holds n m (slotsOf ref)) {calls : List PidCall} (fresh : AddsFresh ref calls) :
    (run pidCall ref calls).1 = (run (mapStep n) m calls).1 ∧
      Holds n (run (mapStep n) m calls).2 (slotsOf (run pidCall ref calls).2) := by
  induction calls generalizing ref m with
  | nil => exact ⟨rfl, holds⟩
  | cons c rest ih =>
      obtain ⟨answer, slots⟩ := pidCall_slotsOf ref c
      have ready : Fresh (slotsOf ref) c ∧ AddsFresh (pidCall ref c).2 rest := by
        cases c with
        | add orgPid newPid =>
            refine ⟨?_, fresh.2⟩
            intro one
            rw [slotsOf, recorded_map_slotOf]
            exact fresh.1 (answer.trans one)
        | del orgPid => exact ⟨trivial, fresh⟩
      obtain ⟨first, next⟩ := holds.step ready.1
      rw [← slots] at next
      obtain ⟨answers, last⟩ := ih next ready.2
      exact ⟨congrArg₂ List.cons (answer.trans first) answers, last⟩

end run

/-- Any row of calls on a table of any size. A call that returned 0 changes no lookup, and none
changes the lookup of another PID. The first entry of a PID counts: an addition that returned 1 is
found unless an older entry stands in front of it, and a deletion that returned 1 leaves the next
entry. Where PIDs are only added while they have no entry, the table is a map of bounded size. -/
theorem first_entry_counts (num basePid : ℕ) (calls : List PidCall) :
    (tableAfter num basePid calls).entries.length = num ∧
      (∀ c : PidCall, (pidCall (tableAfter num basePid calls) c).1 = 0 → ∀ pid,
        pidrefGetNewPid (pidCall (tableAfter num basePid calls) c).2 pid =
          pidrefGetNewPid (tableAfter num basePid calls) pid) ∧
      (∀ (c : PidCall) (pid : ℕ), pid ≠ c.key →
        pidrefGetNewPid (pidCall (tableAfter num basePid calls) c).2 pid =
          pidrefGetNewPid (tableAfter num basePid calls) pid) ∧
      (∀ (orgPid : OrgPid) (newPid : ℕ),
        ((pidrefAdd (tableAfter num basePid calls) orgPid newPid).1 = 1 ↔
          entriesUsed (tableAfter num basePid calls).entries < num) ∧
        ((pidrefAdd (tableAfter num basePid calls) orgPid newPid).1 = 1 →
          pidrefGetNewPid (pidrefAdd (tableAfter num basePid calls) orgPid newPid).2 orgPid =
            (newPids orgPid (inFront (tableAfter num basePid calls).entries)).head?.getD newPid)) ∧
      (∀ orgPid : OrgPid,
        ((pidrefDel (tableAfter num basePid calls) orgPid).1 = 1 ↔
          newPids orgPid (tableAfter num basePid calls).entries ≠ []) ∧
        ((pidrefDel (tableAfter num basePid calls) orgPid).1 = 1 →
          pidrefGetNewPid (pidrefDel (tableAfter num basePid calls) orgPid).2 orgPid =
            (newPids orgPid (tableAfter num basePid calls).entries).tail.head?.getD 0)) ∧
      (AddsFresh (pidrefInit num basePid) calls →
        (run pidCall (pidrefInit num basePid) calls).1 = (run (mapStep num) ∅ calls).1 ∧
          (run (mapStep num) ∅ calls).2.keys.card ≤ num ∧
          ∀ orgPid : OrgPid, pidrefGetNewPid (tableAfter num basePid calls) orgPid =
            ((run (mapStep num) ∅ calls).2.lookup orgPid).getD 0) := by
  have length := length_tableAfter num basePid calls
  refine ⟨length, lookup_refused _, fun c pid => lookup_other _ c, ?_, ?_, ?_⟩
  · intro orgPid newPid
    refine ⟨?_, lookup_added _ orgPid newPid⟩
    rw [added_iff, length]
  · exact fun orgPid => ⟨deleted_iff _ orgPid, lookup_deleted _ orgPid⟩
  · intro fresh
    have empty : slotsOf (pidrefInit num basePid) = List.replicate num none := by
      rw [slotsOf, pidrefInit, List.map_replicate, slotOf_free rfl]
    have start : Holds num ∅ (slotsOf (pidrefInit num basePid)) := empty ▸ holds_replicate num
    obtain ⟨answers, holds⟩ := map_of_fresh start fresh
    refine ⟨answers, ?_, ?_⟩
    · have bound : used (slotsOf (run pidCall (pidrefInit num basePid) calls).2) ≤
          (slotsOf (run pidCall (pidrefInit num basePid) calls).2).length := used_le_length
      rwa [holds.counted, holds.sized] at bound
    · intro orgPid
      rw [pidrefGetNewPid_eq, tableAfter, holds.values]
      cases (run (mapStep num) ∅ calls).2.lookup orgPid <;> rfl

/-- With two entries for PID 5 the addition of the second is not found, and the deletion of the
first brings the second up. -/
theorem second_entry_shadowed :
    (pidrefAdd (tableAfter 2 32 [.add ⟨5, by decide⟩ 32]) 5 33).1 = 1 ∧
      pidrefGetNewPid (pidrefAdd (tableAfter 2 32 [.add ⟨5, by decide⟩ 32]) 5 33).2 5 = 32 ∧
      (pidrefDel (tableAfter 2 32 [.add ⟨5, by decide⟩ 32, .add ⟨5, by decide⟩ 33]) 5).1 = 1 ∧
      pidrefGetNewPid (pidrefDel
        (tableAfter 2 32 [.add ⟨5, by decide⟩ 32, .add ⟨5, by decide⟩ 33]) 5).2 5 = 33 := by
  decide

end Mptsd.PidMap
