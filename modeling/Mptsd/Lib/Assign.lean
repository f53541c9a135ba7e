/- Unit: Mptsd/Lib/Assign
   digest: Slots whose values are assigned to: a value is replaced where it stands or put into the
   first free slot, and free slots can be added behind, against a finite map. -/

import Mptsd.Lib.Slots

set_option autoImplicit false
set_option relaxedAutoImplicit false

namespace Mptsd.Lib.Assign

open Mptsd.Lib.Slots

/-- The first element of a kind is changed. -/
def updateFirst {α : Type*} (p : α → Bool) (f : α → α) : List α → Option (List α)
  | [] => none
  | x :: rest => if p x then some (f x :: rest) else (updateFirst p f rest).map (x :: ·)

section update

variable {α β : Type*} {p : α → Bool} {f : α → α} {l after : List α}

theorem map_updateFirst {q : β → Bool} {g : β → β} {view : α → β}
    (kind : ∀ x ∈ l, p x = q (view x)) (moves : ∀ x ∈ l, p x = true → view (f x) = g (view x)) :
    (updateFirst p f l).map (List.map view) = updateFirst q g (l.map view) := by
  induction l with
  | nil => rfl
  | cons x rest ih =>
      rw [List.forall_mem_cons] at kind moves
      rw [updateFirst, List.map_cons, updateFirst, ← kind.1]
      split_ifs with found
      · simp [moves.1 found]
      · rw [← ih kind.2 moves.2, Option.map_map, Option.map_map]
        rfl

theorem length_updateFirst (updated : updateFirst p f l = some after) :
    after.length = l.length := by
  induction l generalizing after with
  | nil => cases updated
  | cons x rest ih =>
      rw [updateFirst] at updated
      split_ifs at updated
      · obtain rfl := Option.some.inj updated
        rfl
      · rw [Option.map_eq_some_iff] at updated
        obtain ⟨tail, updated, rfl⟩ := updated
        exact congrArg Nat.succ (ih updated)

theorem updateFirst_eq_none_iff : updateFirst p f l = none ↔ ∀ x ∈ l, p x = false := by
  induction l with
  | nil => simp [updateFirst]
  | cons x rest ih =>
      rw [updateFirst, List.forall_mem_cons]
      split_ifs with found
      · simp [found]
      · simp [found, ih]

theorem mem_updateFirst (updated : updateFirst p f l = some after) {y : α} (member : y ∈ after) :
    y ∈ l ∨ ∃ x ∈ l, p x = true ∧ y = f x := by
  induction l generalizing after with
  | nil => cases updated
  | cons x rest ih =>
      rw [updateFirst] at updated
      split_ifs at updated with found
      · obtain rfl := Option.some.inj updated
        rcases List.mem_cons.mp member with rfl | later
        · exact .inr ⟨x, List.mem_cons_self, found, rfl⟩
        · exact .inl (List.mem_cons_of_mem _ later)
      · rw [Option.map_eq_some_iff] at updated
        obtain ⟨tail, updated, rfl⟩ := updated
        rcases List.mem_cons.mp member with rfl | later
        · exact .inl List.mem_cons_self
        · rcases ih updated later with old | ⟨z, old, found, rfl⟩
          · exact .inl (List.mem_cons_of_mem _ old)
          · exact .inr ⟨z, List.mem_cons_of_mem _ old, found, rfl⟩

end update

variable {κ ν : Type*}

theorem fill_eq_updateFirst (k : κ) (v : ν) (slots : List (Option (κ × ν))) :
    fill k v slots = updateFirst Option.isNone (fun _ => some (k, v)) slots := by
  induction slots with
  | nil => rfl
  | cons slot rest ih =>
      cases slot with
      | none => rfl
      | some x => simp [fill, updateFirst, ih]

variable [DecidableEq κ]

/-- The slot holds a value of the key. -/
def holdsKey (k : κ) (slot : Option (κ × ν)) : Bool := slot.any fun x => x.1 = k

theorem clear_eq_updateFirst (k : κ) (slots : List (Option (κ × ν))) :
    clear k slots = updateFirst (holdsKey k) (fun _ => none) slots := by
  induction slots with
  | nil => rfl
  | cons slot rest ih =>
      cases slot with
      | none => simp [clear, updateFirst, holdsKey, ih]
      | some x => simp [clear, updateFirst, holdsKey, ih]

/-- The first value of a key is replaced. -/
def replace (k : κ) (v : ν) (slots : List (Option (κ × ν))) : Option (List (Option (κ × ν))) :=
  updateFirst (holdsKey k) (fun _ => some (k, v)) slots

variable {k : κ} {v : ν} {slots after : List (Option (κ × ν))}

private theorem replace_cons_none :
    replace k v (none :: slots) = (replace k v slots).map (none :: ·) := rfl

private theorem replace_cons_some (x : κ × ν) :
    replace k v (some x :: slots) =
      if x.1 = k then some (some (k, v) :: slots) else (replace k v slots).map (some x :: ·) := by
  simp [replace, updateFirst, holdsKey]

theorem replace_eq_some (replaced : replace k v slots = some after) :
    after.length = slots.length ∧ used after = used slots ∧
      (∀ j, j ≠ k → recorded j after = recorded j slots) ∧
      ∃ gone behind, recorded k slots = gone :: behind ∧ recorded k after = v :: behind := by
  refine ⟨length_updateFirst replaced, ?_⟩
  induction slots generalizing after with
  | nil => cases replaced
  | cons slot rest ih =>
      cases slot with
      | none =>
          rw [replace_cons_none, Option.map_eq_some_iff] at replaced
          obtain ⟨tail, replaced, rfl⟩ := replaced
          simpa only [used_cons_none, recorded_cons_none] using ih replaced
      | some x =>
          rw [replace_cons_some] at replaced
          split_ifs at replaced with same
          · obtain rfl := Option.some.inj replaced
            refine ⟨by simp, ?_, x.2, recorded k rest, ?_, ?_⟩
            · intro j ne
              rw [recorded_cons_ne ne.symm, recorded_cons_ne (same ▸ ne.symm)]
            · exact recorded_cons_self same
            · exact recorded_cons_self rfl
          · rw [Option.map_eq_some_iff] at replaced
            obtain ⟨tail, replaced, rfl⟩ := replaced
            obtain ⟨count, others, gone, behind, before, now⟩ := ih replaced
            refine ⟨by simp [count], ?_, gone, behind, ?_, ?_⟩
            · intro j ne
              by_cases here : x.1 = j
              · rw [recorded_cons_self here, recorded_cons_self here, others j ne]
              · rw [recorded_cons_ne here, recorded_cons_ne here, others j ne]
            · rw [recorded_cons_ne same, before]
            · rw [recorded_cons_ne same, now]

omit [DecidableEq κ] in
private theorem used_append (more : List (Option (κ × ν))) :
    used (slots ++ more) = used slots + used more := List.countP_append

private theorem recorded_append (more : List (Option (κ × ν))) :
    recorded k (slots ++ more) = recorded k slots ++ recorded k more := by
  induction slots with
  | nil => rfl
  | cons slot rest ih =>
      cases slot with
      | none => exact ih
      | some x =>
          rw [List.cons_append]
          by_cases same : x.1 = k
          · rw [recorded_cons_self same, recorded_cons_self same, ih, List.cons_append]
          · rw [recorded_cons_ne same, recorded_cons_ne same, ih]

section holds

variable {n : ℕ} {m : Finmap fun _ : κ => ν}

theorem holds_replaced (holds : Holds n m slots) (replaced : replace k v slots = some after) :
    k ∈ m ∧ Holds n (m.insert k v) after := by
  obtain ⟨length, count, others, gone, behind, before, now⟩ := replace_eq_some replaced
  have single : m.lookup k = some gone ∧ behind = [] := by
    have list := (holds.values k).symm.trans before
    cases value : m.lookup k with
    | none => simp [value] at list
    | some w =>
        rw [value, Option.toList_some] at list
        obtain ⟨rfl, nothing⟩ := List.cons.inj list
        exact ⟨rfl, nothing.symm⟩
  have present : k ∈ m := Finmap.mem_of_lookup_eq_some single.1
  have keys : (m.insert k v).keys = m.keys := by
    ext j
    simp only [Finmap.mem_keys, Finmap.mem_insert, or_iff_right_iff_imp]
    rintro rfl
    exact present
  refine ⟨present, length.trans holds.sized, ?_, ?_⟩
  · rw [count, holds.counted, keys]
  · intro j
    by_cases same : j = k
    · subst same
      rw [now, single.2, Finmap.lookup_insert]
      rfl
    · rw [others j same, holds.values, Finmap.lookup_insert_of_ne _ same]

/-- Free slots behind the others hold nothing. -/
theorem holds_grown (holds : Holds n m slots) (more : ℕ) :
    Holds (n + more) m (slots ++ List.replicate more none) where
  sized := by rw [List.length_append, holds.sized, List.length_replicate]
  counted := by rw [used_append, used_replicate_none, holds.counted, Nat.add_zero]
  values j := by rw [recorded_append, recorded_replicate_none, List.append_nil, holds.values]

end holds

end Mptsd.Lib.Assign
