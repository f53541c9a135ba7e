/- Unit: Mptsd/PidTable
   source: src/pidref.c, src/pidref.h
   digest: The fixed-size table of rewritten PIDs: adding at the first free entry, deleting and
   looking up the first match, and what a row of additions leaves behind. -/

import Mptsd.TsPacket
import Mptsd.Lib.Counter

set_option autoImplicit false
set_option relaxedAutoImplicit false

namespace Mptsd.PidTable

open Mptsd.TsPacket (Packet TsFuncs)
open Mptsd.Lib.Counter (cyclicRun cyclicRun_succ cyclicRun_mod)

structure PidrefEntry where
  orgPid : ℕ
  newPid : ℕ
  deriving DecidableEq

/-- `ref->num` is the length of `entries`. -/
structure Pidref where
  basePid : ℕ
  entries : List PidrefEntry
  deriving DecidableEq

def freeEntry : PidrefEntry := ⟨0, 0⟩

def pidrefInit (num basePid : ℕ) : Pidref := ⟨basePid, List.replicate num freeEntry⟩

/-- The scan for the first entry without an original PID. -/
def fillFree (orgPid newPid : ℕ) : List PidrefEntry → Option (List PidrefEntry)
  | [] => none
  | entry :: rest =>
      if entry.orgPid = 0 then some (⟨orgPid, newPid⟩ :: rest)
      else (fillFree orgPid newPid rest).map (entry :: ·)

def pidrefAdd (ref : Pidref) (orgPid newPid : ℕ) : ℕ × Pidref :=
  if orgPid = 0 then (0, ref)
  else
    match fillFree orgPid newPid ref.entries with
    | some entries => (1, { ref with entries })
    | none => (0, ref)

/-- The scan for the first entry of an original PID, which is zeroed. -/
def clearFirst (orgPid : ℕ) : List PidrefEntry → Option (List PidrefEntry)
  | [] => none
  | entry :: rest =>
      if entry.orgPid = orgPid then some (freeEntry :: rest)
      else (clearFirst orgPid rest).map (entry :: ·)

def pidrefDel (ref : Pidref) (orgPid : ℕ) : ℕ × Pidref :=
  if orgPid = 0 then (0, ref)
  else
    match clearFirst orgPid ref.entries with
    | some entries => (1, { ref with entries })
    | none => (0, ref)

def pidrefGetNewPid (ref : Pidref) (orgPid : ℕ) : ℕ :=
  if orgPid = 0 then 0
  else
    match ref.entries.find? (fun entry => entry.orgPid = orgPid) with
    | some entry => entry.newPid
    | none => 0

/-- The result is the PID written into the packet, or zero when the packet is left alone. -/
def pidrefChangePacketPid (ts : TsFuncs) (tsPacket : Packet) (packetPid : ℕ) (ref : Pidref) :
    ℕ × Packet :=
  let newPid := pidrefGetNewPid ref packetPid
  if newPid ≠ 0 then (newPid, ts.setPid tsPacket newPid) else (0, tsPacket)

/-- The lines the PAT and PMT rewriters repeat for every PID: add it to the table under the next
PID of the channel, use that PID, advance. -/
def assignPid (ref : Pidref) (orgPid : ℕ) : ℕ × Pidref :=
  (ref.basePid,
    { (pidrefAdd ref orgPid ref.basePid).2 with basePid := (ref.basePid + 1) % 2 ^ 16 })

/-- A row of assignments, in order, with the PIDs handed out. -/
def assignPids (ref : Pidref) : List ℕ → List ℕ × Pidref
  | [] => ([], ref)
  | orgPid :: rest =>
      let first := assignPid ref orgPid
      let others := assignPids first.2 rest
      (first.1 :: others.1, others.2)

theorem assignPids_append (ref : Pidref) (a b : List ℕ) :
    assignPids ref (a ++ b) =
      ((assignPids ref a).1 ++ (assignPids (assignPids ref a).2 b).1,
        (assignPids (assignPids ref a).2 b).2) := by
  induction a generalizing ref with
  | nil => rfl
  | cons orgPid a ih => simp [assignPids, ih]

@[simp] theorem basePid_pidrefAdd (ref : Pidref) (orgPid newPid : ℕ) :
    (pidrefAdd ref orgPid newPid).2.basePid = ref.basePid := by
  rw [pidrefAdd]
  split
  · rfl
  · split <;> rfl

theorem basePid_assignPids (ref : Pidref) (orgs : List ℕ) (small : ref.basePid < 2 ^ 16) :
    (assignPids ref orgs).2.basePid = (ref.basePid + orgs.length) % 2 ^ 16 := by
  induction orgs generalizing ref with
  | nil => exact (Nat.mod_eq_of_lt small).symm
  | cons orgPid orgs ih =>
      rw [assignPids, ih _ (Nat.mod_lt _ (by norm_num))]
      simp only [assignPid, List.length_cons]
      rw [Nat.mod_add_mod, Nat.add_assoc, Nat.add_comm 1]

theorem assigned_eq_cyclicRun (ref : Pidref) (orgs : List ℕ) (small : ref.basePid < 2 ^ 16) :
    (assignPids ref orgs).1 = cyclicRun (2 ^ 16) ref.basePid orgs.length := by
  induction orgs generalizing ref with
  | nil => rfl
  | cons orgPid orgs ih =>
      rw [assignPids, ih _ (Nat.mod_lt _ (by norm_num)), List.length_cons, cyclicRun_succ,
        Nat.mod_eq_of_lt small]
      exact congrArg (ref.basePid :: ·) (cyclicRun_mod _ _ _)

@[simp] theorem length_assigned (ref : Pidref) (orgs : List ℕ) :
    (assignPids ref orgs).1.length = orgs.length := by
  induction orgs generalizing ref with
  | nil => rfl
  | cons orgPid orgs ih => simp [assignPids, ih]

/-- The table stores, out of the entries that were `wanted`, those that found room. -/
structure Records (num : ℕ) (wanted : List PidrefEntry) (ref : Pidref) : Prop where
  entries : ref.entries =
    wanted.take num ++ List.replicate (num - wanted.length) freeEntry
  used : ∀ entry ∈ wanted, entry.orgPid ≠ 0

private theorem records_pidrefInit (num basePid : ℕ) : Records num [] (pidrefInit num basePid) where
  entries := by simp [pidrefInit]
  used := by simp

private theorem fillFree_used (orgPid newPid : ℕ) (front rest : List PidrefEntry)
    (used : ∀ entry ∈ front, entry.orgPid ≠ 0) :
    fillFree orgPid newPid (front ++ rest) = (fillFree orgPid newPid rest).map (front ++ ·) := by
  induction front with
  | nil => simp
  | cons entry front ih =>
      have ne : entry.orgPid ≠ 0 := used entry List.mem_cons_self
      rw [List.cons_append, fillFree, if_neg ne,
        ih (fun e he => used e (List.mem_cons_of_mem _ he)), Option.map_map]
      rfl

private theorem fillFree_replicate (orgPid newPid k : ℕ) :
    fillFree orgPid newPid (List.replicate k freeEntry) =
      if k = 0 then none
      else some (⟨orgPid, newPid⟩ :: List.replicate (k - 1) freeEntry) := by
  cases k with
  | zero => rfl
  | succ k => simp [List.replicate_succ, fillFree, freeEntry]

theorem Records.pidrefAdd {num : ℕ} {wanted : List PidrefEntry} {ref : Pidref}
    (h : Records num wanted ref) {orgPid : ℕ} (newPid : ℕ) (ne : orgPid ≠ 0) :
    Records num (wanted ++ [⟨orgPid, newPid⟩]) (pidrefAdd ref orgPid newPid).2 where
  entries := by
    have used : ∀ entry ∈ wanted.take num, entry.orgPid ≠ 0 :=
      fun entry member => h.used entry (List.mem_of_mem_take member)
    rw [PidTable.pidrefAdd]
    rw [if_neg ne, h.entries, fillFree_used _ _ _ _ used, fillFree_replicate]
    by_cases full : num ≤ wanted.length
    · have none_left : num - wanted.length = 0 := by omega
      have none_after : num - (wanted ++ [(⟨orgPid, newPid⟩ : PidrefEntry)]).length = 0 := by
        simp
        omega
      simp only [none_left, none_after, if_true, Option.map_none, h.entries,
        List.take_append_of_le_length full]
    · have some_left : num - wanted.length ≠ 0 := by omega
      have all : wanted.take num = wanted := List.take_of_length_le (by omega)
      have all_after : (wanted ++ [(⟨orgPid, newPid⟩ : PidrefEntry)]).take num =
          wanted ++ [⟨orgPid, newPid⟩] := List.take_of_length_le (by simp; omega)
      simp only [some_left, if_false, Option.map_some, all, all_after, List.length_append,
        List.length_singleton, List.append_assoc, List.singleton_append, Nat.sub_sub]
  used := by
    intro entry member
    rcases List.mem_append.mp member with member | member
    · exact h.used entry member
    · obtain rfl := List.mem_singleton.mp member
      exact ne

@[simp] theorem pidrefAdd_zero (ref : Pidref) (newPid : ℕ) :
    pidrefAdd ref 0 newPid = (0, ref) := by
  simp [pidrefAdd]

/-- The entries a row of assignments asks for: every nonzero PID with the PID it was given. -/
def requests (basePid : ℕ) (orgs : List ℕ) : List PidrefEntry :=
  ((orgs.zip (cyclicRun (2 ^ 16) basePid orgs.length)).map (fun x => ⟨x.1, x.2⟩)).filter
    (fun entry => entry.orgPid ≠ 0)

private theorem requests_cons (basePid orgPid : ℕ) (orgs : List ℕ) (small : basePid < 2 ^ 16) :
    requests basePid (orgPid :: orgs) =
      (if orgPid = 0 then [] else [⟨orgPid, basePid⟩]) ++
        requests ((basePid + 1) % 2 ^ 16) orgs := by
  unfold requests
  rw [List.length_cons, cyclicRun_succ, cyclicRun_mod, Nat.mod_eq_of_lt small,
    List.zip_cons_cons, List.map_cons, List.filter_cons]
  by_cases zero : orgPid = 0 <;> simp [zero]

theorem Records.assignPids {num : ℕ} {wanted : List PidrefEntry} {ref : Pidref}
    (h : Records num wanted ref) (orgs : List ℕ) (small : ref.basePid < 2 ^ 16) :
    Records num (wanted ++ requests ref.basePid orgs) (assignPids ref orgs).2 := by
  induction orgs generalizing ref wanted with
  | nil => simpa [PidTable.assignPids, requests] using h
  | cons orgPid orgs ih =>
      have next : (ref.basePid + 1) % 2 ^ 16 < 2 ^ 16 := Nat.mod_lt _ (by norm_num)
      rw [PidTable.assignPids, requests_cons _ _ _ small]
      by_cases zero : orgPid = 0
      · subst zero
        have same : Records num wanted (assignPid ref 0).2 :=
          ⟨by simpa [assignPid] using h.entries, h.used⟩
        simpa [assignPid] using ih same next
      · have more := h.pidrefAdd ref.basePid zero
        have step : Records num (wanted ++ [⟨orgPid, ref.basePid⟩]) (assignPid ref orgPid).2 :=
          ⟨more.entries, more.used⟩
        simpa [assignPid, zero] using ih step next

theorem records_assigned (num : ℕ) {basePid : ℕ} (orgs : List ℕ) (small : basePid < 2 ^ 16) :
    Records num (requests basePid orgs)
      (PidTable.assignPids (pidrefInit num basePid) orgs).2 :=
  (records_pidrefInit num basePid).assignPids orgs small

theorem Records.getNewPid {num : ℕ} {wanted : List PidrefEntry} {ref : Pidref}
    (h : Records num wanted ref) {orgPid : ℕ} (ne : orgPid ≠ 0) :
    pidrefGetNewPid ref orgPid =
      (((wanted.take num).find? (fun entry => entry.orgPid = orgPid)).map
        PidrefEntry.newPid).getD 0 := by
  have unused : (List.replicate (num - wanted.length) freeEntry).find?
      (fun entry => entry.orgPid = orgPid) = none := by
    simp [freeEntry, Ne.symm ne]
  rw [pidrefGetNewPid]
  rw [if_neg ne, h.entries, List.find?_append, unused, Option.or_none]
  cases (wanted.take num).find? (fun entry => entry.orgPid = orgPid) <;> rfl

private theorem mem_requests {basePid : ℕ} {orgs : List ℕ} {entry : PidrefEntry} :
    entry ∈ requests basePid orgs ↔
      (entry.orgPid, entry.newPid) ∈ orgs.zip (cyclicRun (2 ^ 16) basePid orgs.length) ∧
        entry.orgPid ≠ 0 := by
  simp only [requests, List.mem_filter, List.mem_map, decide_eq_true_eq]
  constructor
  · rintro ⟨⟨x, member, rfl⟩, ne⟩
    exact ⟨member, ne⟩
  · rintro ⟨member, ne⟩
    exact ⟨⟨_, member, rfl⟩, ne⟩

theorem lookup_assigned {num basePid : ℕ} {orgs : List ℕ} (small : basePid < 2 ^ 16) {pid : ℕ}
    (found : pidrefGetNewPid (assignPids (pidrefInit num basePid) orgs).2 pid ≠ 0) :
    pidrefGetNewPid (assignPids (pidrefInit num basePid) orgs).2 pid ∈
      cyclicRun (2 ^ 16) basePid orgs.length := by
  have ne : pid ≠ 0 := by
    rintro rfl
    exact found rfl
  rw [(records_assigned num orgs small).getNewPid ne] at found ⊢
  cases first : ((requests basePid orgs).take num).find? (fun entry => entry.orgPid = pid) with
  | none => simp [first] at found
  | some entry =>
      have member := List.mem_of_mem_take (List.mem_of_find?_eq_some first)
      exact (List.of_mem_zip (mem_requests.mp member).1).2

theorem lookup_first {num basePid : ℕ} {orgs : List ℕ} (small : basePid < 2 ^ 16) {pid : ℕ}
    (room : 0 < num) (first : orgs.find? (fun org => org ≠ 0) = some pid) :
    pidrefGetNewPid (assignPids (pidrefInit num basePid) orgs).2 pid ∈
      cyclicRun (2 ^ 16) basePid orgs.length := by
  have ne : pid ≠ 0 := by simpa using List.find?_some first
  have keys : (orgs.zip (cyclicRun (2 ^ 16) basePid orgs.length)).map Prod.fst = orgs :=
    List.map_fst_zip (by simp)
  have head : (requests basePid orgs).head?.map PidrefEntry.orgPid = some pid := by
    rw [← first, requests, List.head?_filter, List.find?_map, Option.map_map]
    conv_rhs => rw [← keys, List.find?_map]
    rfl
  cases wanted : requests basePid orgs with
  | nil => simp [wanted] at head
  | cons entry rest =>
      have key : entry.orgPid = pid := by simpa [wanted] using head
      have member : entry ∈ requests basePid orgs := by simp [wanted]
      have found : ((requests basePid orgs).take num).find?
          (fun entry => entry.orgPid = pid) = some entry := by
        obtain ⟨num, rfl⟩ := Nat.exists_eq_succ_of_ne_zero room.ne'
        rw [wanted, List.take_succ_cons, List.find?_cons_of_pos (by simpa using key)]
      rw [(records_assigned num orgs small).getNewPid ne, found]
      exact (List.of_mem_zip (mem_requests.mp member).1).2

end Mptsd.PidTable
