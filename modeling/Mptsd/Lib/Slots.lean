/- Unit: Mptsd/Lib/Slots
   digest: A row of slots for keyed values that is filled at the first free slot and searched from
   the front, against a finite map of bounded size. -/

import Mathlib.Data.Finmap
import Mathlib.Tactic

set_option autoImplicit false
set_option relaxedAutoImplicit false

namespace Mptsd.Lib.Slots

variable {κ ν : Type*}

/-- The first free slot is filled. -/
def fill (k : κ) (v : ν) : List (Option (κ × ν)) → Option (List (Option (κ × ν)))
  | [] => none
  | none :: rest => some (some (k, v) :: rest)
  | some x :: rest => (fill k v rest).map (some x :: ·)

/-- The slots in front of the first free one. -/
def front (slots : List (Option (κ × ν))) : List (Option (κ × ν)) :=
  slots.takeWhile Option.isSome

def used (slots : List (Option (κ × ν))) : ℕ := slots.countP Option.isSome

section counting

variable {slots : List (Option (κ × ν))}

@[simp] theorem used_cons_none : used (none :: slots) = used slots :=
  List.countP_cons_of_neg (by simp)

@[simp] theorem used_cons_some (x : κ × ν) : used (some x :: slots) = used slots + 1 :=
  List.countP_cons_of_pos rfl

theorem used_le_length : used slots ≤ slots.length := List.countP_le_length

@[simp] theorem used_replicate_none (n : ℕ) :
    used (List.replicate n (none : Option (κ × ν))) = 0 := by
  rw [used, List.countP_replicate, if_neg (by simp)]

end counting

variable [DecidableEq κ]

/-- The first slot of a key is cleared. -/
def clear (k : κ) : List (Option (κ × ν)) → Option (List (Option (κ × ν)))
  | [] => none
  | none :: rest => (clear k rest).map (none :: ·)
  | some x :: rest => if x.1 = k then some (none :: rest) else (clear k rest).map (some x :: ·)

/-- The values of a key, in the order of the slots. -/
def recorded (k : κ) : List (Option (κ × ν)) → List ν
  | [] => []
  | none :: rest => recorded k rest
  | some x :: rest => if x.1 = k then x.2 :: recorded k rest else recorded k rest

variable {k : κ} {v : ν} {slots after : List (Option (κ × ν))}

section recorded

@[simp] theorem recorded_cons_none : recorded k (none :: slots) = recorded k slots := rfl

theorem recorded_cons_self {x : κ × ν} (own : x.1 = k) :
    recorded k (some x :: slots) = x.2 :: recorded k slots := if_pos own

theorem recorded_cons_ne {x : κ × ν} (other : x.1 ≠ k) :
    recorded k (some x :: slots) = recorded k slots := if_neg other

@[simp] theorem recorded_replicate_none (n : ℕ) :
    recorded k (List.replicate n (none : Option (κ × ν))) = [] := by
  induction n with
  | zero => rfl
  | succ n ih => exact ih

end recorded

section fill

theorem fill_eq_some (filled : fill k v slots = some after) :
    after.length = slots.length ∧ used after = used slots + 1 ∧
      (∀ j, j ≠ k → recorded j after = recorded j slots) ∧
      ∃ behind, recorded k slots = recorded k (front slots) ++ behind ∧
        recorded k after = recorded k (front slots) ++ v :: behind := by
  induction slots generalizing after with
  | nil => cases filled
  | cons slot rest ih =>
      cases slot with
      | none =>
          obtain rfl := Option.some.inj filled
          refine ⟨rfl, by simp, ?_, recorded k rest, rfl, recorded_cons_self rfl⟩
          intro j ne
          exact recorded_cons_ne ne.symm
      | some x =>
          rw [fill, Option.map_eq_some_iff] at filled
          obtain ⟨tail, filled, rfl⟩ := filled
          obtain ⟨length, count, others, behind, whole, own⟩ := ih filled
          have first : front (some x :: rest) = some x :: front rest := rfl
          refine ⟨congrArg Nat.succ length, by simp [count], ?_, behind, ?_⟩
          · intro j ne
            by_cases same : x.1 = j
            · rw [recorded_cons_self same, recorded_cons_self same, others j ne]
            · rw [recorded_cons_ne same, recorded_cons_ne same, others j ne]
          · rw [first]
            by_cases same : x.1 = k
            · simp only [recorded_cons_self same, whole, own, List.cons_append, and_self]
            · simp only [recorded_cons_ne same]
              exact ⟨whole, own⟩

omit [DecidableEq κ] in
theorem fill_eq_none_iff : fill k v slots = none ↔ used slots = slots.length := by
  induction slots with
  | nil => exact ⟨fun _ => rfl, fun _ => rfl⟩
  | cons slot rest ih =>
      cases slot with
      | none =>
          have bound : used rest ≤ rest.length := used_le_length
          simp only [fill, used_cons_none, List.length_cons, reduceCtorEq, false_iff]
          omega
      | some x =>
          rw [fill, Option.map_eq_none_iff, ih, used_cons_some, List.length_cons]
          omega

end fill

section clear

theorem clear_eq_some (cleared : clear k slots = some after) :
    after.length = slots.length ∧ used after + 1 = used slots ∧
      (∀ j, j ≠ k → recorded j after = recorded j slots) ∧
      ∃ gone, recorded k slots = gone :: recorded k after := by
  induction slots generalizing after with
  | nil => cases cleared
  | cons slot rest ih =>
      cases slot with
      | none =>
          rw [clear, Option.map_eq_some_iff] at cleared
          obtain ⟨tail, cleared, rfl⟩ := cleared
          obtain ⟨length, count, others, own⟩ := ih cleared
          exact ⟨congrArg Nat.succ length, by simpa using count, others, own⟩
      | some x =>
          rw [clear] at cleared
          split_ifs at cleared with same
          · obtain rfl := Option.some.inj cleared
            refine ⟨rfl, by simp, ?_, x.2, recorded_cons_self same⟩
            intro j ne
            exact (recorded_cons_ne (same ▸ ne.symm)).symm
          · rw [Option.map_eq_some_iff] at cleared
            obtain ⟨tail, cleared, rfl⟩ := cleared
            obtain ⟨length, count, others, gone, whole⟩ := ih cleared
            refine ⟨congrArg Nat.succ length, by simp [count], ?_, gone, ?_⟩
            · intro j ne
              by_cases here : x.1 = j
              · rw [recorded_cons_self here, recorded_cons_self here, others j ne]
              · rw [recorded_cons_ne here, recorded_cons_ne here, others j ne]
            · rw [recorded_cons_ne same, recorded_cons_ne same, whole]

theorem clear_eq_none_iff : clear k slots = none ↔ recorded k slots = [] := by
  induction slots with
  | nil => exact ⟨fun _ => rfl, fun _ => rfl⟩
  | cons slot rest ih =>
      cases slot with
      | none => rw [clear, Option.map_eq_none_iff, ih, recorded_cons_none]
      | some x =>
          rw [clear]
          split_ifs with same
          · simp [recorded_cons_self same]
          · rw [Option.map_eq_none_iff, ih, recorded_cons_ne same]

end clear

section calls

/-- A value is added under a key, or a key is deleted. -/
inductive Call (κ ν : Type*)
  | add (k : κ) (v : ν)
  | del (k : κ)

/-- The answer is 1 if a slot was found. -/
def slotsStep (slots : List (Option (κ × ν))) : Call κ ν → ℕ × List (Option (κ × ν))
  | .add k v =>
      match fill k v slots with
      | some after => (1, after)
      | none => (0, slots)
  | .del k =>
      match clear k slots with
      | some after => (1, after)
      | none => (0, slots)

/-- The same calls on a finite map with room for `n` keys. -/
def mapStep (n : ℕ) (m : Finmap fun _ : κ => ν) : Call κ ν → ℕ × Finmap fun _ : κ => ν
  | .add k v => if m.keys.card < n then (1, m.insert k v) else (0, m)
  | .del k => if k ∈ m then (1, m.erase k) else (0, m)

/-- The key that a call is about. -/
def Call.key : Call κ ν → κ
  | .add k _ => k
  | .del k => k

/-- A value is added only under a key that has none. -/
def Fresh (slots : List (Option (κ × ν))) : Call κ ν → Prop
  | .add k v => (slotsStep slots (.add k v)).1 = 1 → recorded k slots = []
  | .del _ => True

/-- The slots hold the map: every key has its value, once. -/
structure Holds (n : ℕ) (m : Finmap fun _ : κ => ν) (slots : List (Option (κ × ν))) : Prop where
  sized : slots.length = n
  counted : used slots = m.keys.card
  values : ∀ k, recorded k slots = (m.lookup k).toList

theorem slotsStep_add (slots : List (Option (κ × ν))) (k : κ) (v : ν) :
    (slotsStep slots (.add k v)).1 = 0 ∧ (slotsStep slots (.add k v)).2 = slots ∧
        used slots = slots.length ∨
      (slotsStep slots (.add k v)).1 = 1 ∧
        fill k v slots = some (slotsStep slots (.add k v)).2 ∧ used slots < slots.length := by
  rw [slotsStep]
  cases filled : fill k v slots with
  | none => exact .inl ⟨rfl, rfl, fill_eq_none_iff.mp filled⟩
  | some after =>
      have room : used slots ≠ slots.length := by
        intro full
        rw [fill_eq_none_iff.mpr full] at filled
        cases filled
      exact .inr ⟨rfl, rfl, lt_of_le_of_ne used_le_length room⟩

theorem slotsStep_del (slots : List (Option (κ × ν))) (k : κ) :
    (slotsStep slots (.del k)).1 = 0 ∧ (slotsStep slots (.del k)).2 = slots ∧
        recorded k slots = [] ∨
      (slotsStep slots (.del k)).1 = 1 ∧
        clear k slots = some (slotsStep slots (.del k)).2 ∧ recorded k slots ≠ [] := by
  rw [slotsStep]
  cases cleared : clear k slots with
  | none => exact .inl ⟨rfl, rfl, clear_eq_none_iff.mp cleared⟩
  | some after =>
      refine .inr ⟨rfl, rfl, ?_⟩
      intro nothing
      rw [clear_eq_none_iff.mpr nothing] at cleared
      cases cleared

theorem slotsStep_frame (slots : List (Option (κ × ν))) (c : Call κ ν) :
    (slotsStep slots c).2.length = slots.length ∧
      (∀ j, j ≠ c.key → recorded j (slotsStep slots c).2 = recorded j slots) ∧
      ((slotsStep slots c).1 = 0 → (slotsStep slots c).2 = slots) := by
  cases c with
  | add k v =>
      rcases slotsStep_add slots k v with ⟨-, same, -⟩ | ⟨one, filled, -⟩
      · rw [same]
        exact ⟨rfl, fun _ _ => rfl, fun _ => rfl⟩
      · obtain ⟨length, -, others, -⟩ := fill_eq_some filled
        exact ⟨length, others, fun zero => by omega⟩
  | del k =>
      rcases slotsStep_del slots k with ⟨-, same, -⟩ | ⟨one, cleared, -⟩
      · rw [same]
        exact ⟨rfl, fun _ _ => rfl, fun _ => rfl⟩
      · obtain ⟨length, -, others, -⟩ := clear_eq_some cleared
        exact ⟨length, others, fun zero => by omega⟩

variable {n : ℕ} {m : Finmap fun _ : κ => ν}

theorem holds_replicate (n : ℕ) :
    Holds n (∅ : Finmap fun _ : κ => ν) (List.replicate n none) where
  sized := List.length_replicate
  counted := by simp
  values := by simp

theorem Holds.insert (holds : Holds n m slots) (missing : recorded k slots = [])
    (filled : fill k v slots = some after) : Holds n (m.insert k v) after := by
  obtain ⟨length, count, others, behind, whole, own⟩ := fill_eq_some filled
  have absent : k ∉ m := by
    rw [← Finmap.lookup_eq_none]
    have empty := (holds.values k).symm.trans missing
    simpa using empty
  obtain ⟨nothing, rest⟩ := List.append_eq_nil_iff.mp (whole.symm.trans missing)
  refine ⟨length.trans holds.sized, ?_, ?_⟩
  · have keys : (m.insert k v).keys = Insert.insert k m.keys := by
      ext j
      simp [Finmap.mem_keys]
    rw [count, holds.counted, keys, Finset.card_insert_of_notMem (by simpa [Finmap.mem_keys])]
  · intro j
    by_cases same : j = k
    · subst same
      rw [own, nothing, rest, Finmap.lookup_insert]
      rfl
    · rw [others j same, holds.values, Finmap.lookup_insert_of_ne _ same]

theorem Holds.erase (holds : Holds n m slots) (cleared : clear k slots = some after) :
    Holds n (m.erase k) after := by
  obtain ⟨length, count, others, gone, own⟩ := clear_eq_some cleared
  have single : m.lookup k = some gone ∧ recorded k after = [] := by
    have list := (holds.values k).symm.trans own
    cases value : m.lookup k with
    | none => simp [value] at list
    | some w =>
        rw [value, Option.toList_some] at list
        obtain ⟨rfl, nothing⟩ := List.cons.inj list
        exact ⟨rfl, nothing.symm⟩
  refine ⟨length.trans holds.sized, ?_, ?_⟩
  · have present : k ∈ m.keys := Finmap.mem_keys.mpr (Finmap.mem_of_lookup_eq_some single.1)
    have card := holds.counted
    rw [Finmap.keys_erase, Finset.card_erase_of_mem present]
    omega
  · intro j
    by_cases same : j = k
    · subst same
      rw [single.2, Finmap.lookup_erase]
      rfl
    · rw [others j same, holds.values, Finmap.lookup_erase_ne same]

/-- A fresh call is answered as by the map. -/
theorem Holds.step (holds : Holds n m slots) {c : Call κ ν} (fresh : Fresh slots c) :
    (slotsStep slots c).1 = (mapStep n m c).1 ∧
      Holds n (mapStep n m c).2 (slotsStep slots c).2 := by
  cases c with
  | add k v =>
      rcases slotsStep_add slots k v with ⟨zero, same, full⟩ | ⟨one, filled, room⟩
      · rw [holds.counted, holds.sized] at full
        rw [mapStep, if_neg (by omega)]
        exact ⟨zero, same.symm ▸ holds⟩
      · rw [holds.counted, holds.sized] at room
        rw [mapStep, if_pos room]
        exact ⟨one, holds.insert (fresh one) filled⟩
  | del k =>
      rcases slotsStep_del slots k with ⟨zero, same, nothing⟩ | ⟨one, cleared, some⟩
      · rw [holds.values, Option.toList_eq_nil_iff, Finmap.lookup_eq_none] at nothing
        rw [mapStep, if_neg nothing]
        exact ⟨zero, same.symm ▸ holds⟩
      · rw [holds.values, Ne, Option.toList_eq_nil_iff, Finmap.lookup_eq_none, not_not] at some
        rw [mapStep, if_pos some]
        exact ⟨one, holds.erase cleared⟩

end calls

end Mptsd.Lib.Slots
