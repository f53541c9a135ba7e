/- Unit: Mptsd/Inifile/Store
   source: src/inidict.c (dictionary_hash, dictionary_new, dictionary_get, dictionary_set,
   dictionary_unset), src/inidict.h
   digest: The dictionary of a configuration file: arrays that are searched from the front and
   doubled when they are full, against a finite map. -/

import Mptsd.Lib.Assign

set_option autoImplicit false
set_option relaxedAutoImplicit false

namespace Mptsd.Inifile.Store

open Mptsd.Lib.Assign
open Mptsd.Lib.Slots

/-- The characters in front of the NUL. -/
abbrev Text := List Char

/-- What the parser passes around as a `char *`. -/
inductive CharPtr
  | null
  | invalidKey
  | text (s : Text)
  deriving DecidableEq

/-- `(unsigned)key[i]`, where a `char` has a sign. -/
def unsignedChar (c : Char) : UInt32 :=
  if c.toNat < 128 then UInt32.ofNat c.toNat else UInt32.ofNat (c.toNat + (2 ^ 32 - 2 ^ 8))

def dictionaryHash (key : Text) : UInt32 :=
  let hash := key.foldl (fun hash c =>
    let hash := hash + unsignedChar c
    let hash := hash + (hash <<< 10)
    hash ^^^ (hash >>> 6)) 0
  let hash := hash + (hash <<< 3)
  let hash := hash ^^^ (hash >>> 11)
  hash + (hash <<< 15)

/-- One place of the arrays `key`, `val` and `hash`. -/
structure Place where
  key : Option Text
  val : Option Text
  hash : UInt32
  deriving DecidableEq

/-- What `calloc` leaves. -/
def Place.unused : Place := ⟨none, none, 0⟩

/-- `dictionary`. -/
structure Dict where
  n : ℕ
  places : List Place
  deriving DecidableEq

def Dict.size (d : Dict) : ℕ := d.places.length

/-- `DICTMINSZ`. -/
def dictMinSz : ℤ := 128

def dictionaryNew (size : ℤ) : Dict :=
  ⟨0, List.replicate (if size < dictMinSz then dictMinSz else size).toNat .unused⟩

/-- The test of the search loops: hashes first, then the keys themselves. -/
def Place.has (hash : UInt32) (key : Text) (p : Place) : Bool :=
  p.key.isSome && hash == p.hash && p.key == some key

def dictionaryGet (d : Dict) (key : Text) (dflt : CharPtr) : CharPtr :=
  match d.places.find? (Place.has (dictionaryHash key) key) with
  | none => dflt
  | some p =>
      match p.val with
      | none => .null
      | some s => .text s

/-- `mem_double` of the arrays, which clears their second halves. -/
def memDouble (places : List Place) : List Place :=
  places ++ List.replicate places.length .unused

/-- `none` stands for a write behind the end of the arrays. -/
def dictionarySet (d : Dict) (key : Text) (val : Option Text) : Option Dict :=
  let hash := dictionaryHash key
  let found :=
    if d.n > 0 then updateFirst (Place.has hash key) (fun p => { p with val }) d.places else none
  match found with
  | some places => some { d with places }
  | none =>
      let places := if d.n = d.size then memDouble d.places else d.places
      (updateFirst (fun p => p.key.isNone) (fun _ => ⟨some key, val, hash⟩) places).map
        fun places => ⟨d.n + 1, places⟩

def dictionaryUnset (d : Dict) (key : Text) : Dict :=
  match updateFirst (Place.has (dictionaryHash key) key) (fun _ => .unused) d.places with
  | none => d
  | some places => ⟨d.n - 1, places⟩

inductive DictCall
  | set (key : Text) (val : Option Text)
  | unset (key : Text)
  deriving DecidableEq

def dictCall (d : Dict) : DictCall → Option Dict
  | .set key val => dictionarySet d key val
  | .unset key => some (dictionaryUnset d key)

def dictAfter (size : ℤ) (calls : List DictCall) : Option Dict :=
  calls.foldlM dictCall (dictionaryNew size)

/-- A key may have no value, and still be there. -/
abbrev KeyMap := Finmap fun _ : Text => Option Text

def mapCall (m : KeyMap) : DictCall → KeyMap
  | .set key val => m.insert key val
  | .unset key => m.erase key

def mapAfter (calls : List DictCall) : KeyMap := calls.foldl mapCall ∅

def mapGet (m : KeyMap) (key : Text) (dflt : CharPtr) : CharPtr :=
  match m.lookup key with
  | none => dflt
  | some none => .null
  | some (some s) => .text s

/-- A place as a slot for a keyed value. -/
def Place.slot (p : Place) : Option (Text × Option Text) := p.key.map fun key => (key, p.val)

def Dict.slots (d : Dict) : List (Option (Text × Option Text)) := d.places.map Place.slot

/-- Every key is stored with its hash. -/
def Hashed (places : List Place) : Prop :=
  ∀ p ∈ places, ∀ key, p.key = some key → p.hash = dictionaryHash key

structure Represents (d : Dict) (m : KeyMap) : Prop where
  holds : Holds d.size m d.slots
  count : d.n = m.keys.card
  hashed : Hashed d.places
  pos : 0 < d.size

section places

variable {places : List Place} {key : Text}

private theorem has_slot (key : Text) (hashed : Hashed places) :
    ∀ p ∈ places, Place.has (dictionaryHash key) key p = holdsKey key p.slot := by
  intro p member
  cases stored : p.key with
  | none => simp [Place.has, Place.slot, holdsKey, stored]
  | some own =>
      have hash := hashed p member own stored
      by_cases same : own = key
      · subst same
        simp [Place.has, Place.slot, holdsKey, stored, hash]
      · simp [Place.has, Place.slot, holdsKey, stored, same]

private theorem find_recorded (key : Text) (hashed : Hashed places) :
    (places.find? (Place.has (dictionaryHash key) key)).map Place.val =
      (recorded key (places.map Place.slot)).head? := by
  induction places with
  | nil => rfl
  | cons p places ih =>
      have first := has_slot key hashed p List.mem_cons_self
      have later : Hashed places := fun q member => hashed q (List.mem_cons_of_mem _ member)
      rw [List.find?_cons, List.map_cons, first]
      cases stored : p.key with
      | none =>
          have free : p.slot = none := by rw [Place.slot, stored]; rfl
          rw [free]
          exact ih later
      | some own =>
          have taken : p.slot = some (own, p.val) := by rw [Place.slot, stored]; rfl
          rw [taken]
          by_cases same : own = key
          · subst same
            rw [recorded_cons_self (x := (own, p.val)) rfl]
            simp [holdsKey]
          · rw [recorded_cons_ne same]
            simpa [holdsKey, same] using ih later

private theorem Hashed.updateFirst {p : Place → Bool} {f : Place → Place} {after : List Place}
    (hashed : Hashed places) (moves : ∀ q ∈ places, p q = true →
      ∀ own, (f q).key = some own → (f q).hash = dictionaryHash own)
    (updated : updateFirst p f places = some after) : Hashed after := by
  intro q member own stored
  rcases mem_updateFirst updated member with old | ⟨r, old, found, rfl⟩
  · exact hashed q old own stored
  · exact moves r old found own stored

private theorem slots_unused (count : ℕ) :
    (List.replicate count Place.unused).map Place.slot = List.replicate count none := by
  rw [List.map_replicate]
  rfl

private theorem length_memDouble : (memDouble places).length = places.length * 2 := by
  rw [memDouble, List.length_append, List.length_replicate, mul_two]

private theorem Hashed.doubled (hashed : Hashed places) : Hashed (memDouble places) := by
  intro p member own stored
  rcases List.mem_append.mp member with old | new
  · exact hashed p old own stored
  · obtain rfl := List.eq_of_mem_replicate new
    cases stored

end places

section step

variable {d : Dict} {m : KeyMap}

theorem Represents.get (h : Represents d m) (key : Text) (dflt : CharPtr) :
    dictionaryGet d key dflt = mapGet m key dflt := by
  have found := find_recorded key h.hashed
  have value : recorded key (d.places.map Place.slot) = (m.lookup key).toList := h.holds.values key
  rw [value] at found
  rw [dictionaryGet, mapGet]
  cases here : m.lookup key with
  | none =>
      rw [here, Option.toList_none, List.head?_nil, Option.map_eq_none_iff] at found
      rw [found]
  | some val =>
      rw [here, Option.toList_some, List.head?_cons, Option.map_eq_some_iff] at found
      obtain ⟨p, found, own⟩ := found
      rw [found]
      dsimp only
      rw [own]
      cases val <;> rfl

theorem represents_new (size : ℤ) : Represents (dictionaryNew size) ∅ := by
  have length : (dictionaryNew size).size = (if size < dictMinSz then dictMinSz else size).toNat :=
    List.length_replicate
  refine ⟨?_, rfl, ?_, ?_⟩
  · rw [length]
    have slots : (dictionaryNew size).slots = List.replicate _ none := slots_unused _
    rw [slots]
    exact holds_replicate _
  · intro p member own stored
    obtain rfl := List.eq_of_mem_replicate member
    cases stored
  · rw [length, dictMinSz]
    split_ifs <;> omega

private theorem Represents.replaced (h : Represents d m) {key : Text} {val : Option Text}
    {places : List Place} (found : updateFirst (Place.has (dictionaryHash key) key)
      (fun p => { p with val }) d.places = some places) :
    key ∈ m ∧ Represents ⟨d.n, places⟩ (m.insert key val) := by
  have size : places.length = d.size := length_updateFirst found
  have slots : replace key val d.slots = some (places.map Place.slot) := by
    rw [replace, Dict.slots, ← map_updateFirst (has_slot key h.hashed), found]
    · rfl
    · intro p member has
      have stored : p.key = some key := by
        simp only [Place.has, Bool.and_eq_true, beq_iff_eq] at has
        exact has.2
      rw [Place.slot, stored]
      rfl
  obtain ⟨present, holds⟩ := holds_replaced h.holds slots
  have count : d.n = (m.insert key val).keys.card :=
    calc d.n = used d.slots := h.count.trans h.holds.counted.symm
      _ = used (places.map Place.slot) := (replace_eq_some slots).2.1.symm
      _ = (m.insert key val).keys.card := holds.counted
  refine ⟨present, ?_, count, ?_, ?_⟩
  · rw [Dict.size, size]
    exact holds
  · refine h.hashed.updateFirst ?_ found
    exact fun q member _ own stored => h.hashed q member own stored
  · rw [Dict.size, size]
    exact h.pos

theorem Represents.stored (h : Represents d m) {key : Text} (val : Option Text) (missing : key ∉ m)
    (room : d.n < d.size) :
    ∃ places, updateFirst (fun p => p.key.isNone)
        (fun _ => ⟨some key, val, dictionaryHash key⟩) d.places = some places ∧
      places.length = d.size ∧ Represents ⟨d.n + 1, places⟩ (m.insert key val) := by
  have nothing : recorded key d.slots = [] := by
    rw [h.holds.values, Option.toList_eq_nil_iff, Finmap.lookup_eq_none]
    exact missing
  have slots : (updateFirst (fun p => p.key.isNone)
      (fun _ => ⟨some key, val, dictionaryHash key⟩) d.places).map (List.map Place.slot) =
        fill key val d.slots := by
    rw [fill_eq_updateFirst, Dict.slots]
    apply map_updateFirst
    · intro p _
      cases stored : p.key <;> simp [Place.slot, stored]
    · exact fun _ _ _ => rfl
  have used : used d.slots < d.slots.length := by
    rw [h.holds.counted, ← h.count, h.holds.sized]
    exact room
  cases placed : updateFirst (fun p => p.key.isNone)
      (fun _ => ⟨some key, val, dictionaryHash key⟩) d.places with
  | none =>
      rw [placed] at slots
      have full := fill_eq_none_iff.mp slots.symm
      omega
  | some places =>
      rw [placed] at slots
      have size : places.length = d.size := length_updateFirst placed
      have holds := h.holds.insert nothing slots.symm
      refine ⟨places, rfl, size, ?_, ?_, ?_, ?_⟩
      · rw [Dict.size, size]
        exact holds
      · rw [← holds.counted, (fill_eq_some slots.symm).2.1, h.holds.counted, h.count]
      · refine h.hashed.updateFirst ?_ placed
        intro q _ _ own stored
        obtain rfl := Option.some.inj stored
        rfl
      · rw [Dict.size, size]
        exact h.pos

private theorem Represents.doubled (h : Represents d m) :
    Represents ⟨d.n, memDouble d.places⟩ m := by
  have slots : (memDouble d.places).map Place.slot = d.slots ++ List.replicate d.size none := by
    rw [memDouble, List.map_append, slots_unused]
    rfl
  have size : (memDouble d.places).length = d.size + d.size := by
    rw [length_memDouble, mul_two]
    rfl
  refine ⟨?_, h.count, h.hashed.doubled, ?_⟩
  · show Holds (memDouble d.places).length m ((memDouble d.places).map Place.slot)
    rw [size, slots]
    exact holds_grown h.holds d.size
  · show 0 < (memDouble d.places).length
    rw [size]
    exact Nat.add_pos_left h.pos _

theorem Represents.room (h : Represents d m) : d.n ≤ d.size := by
  have le : used d.slots ≤ d.slots.length := used_le_length
  rwa [h.holds.counted, h.holds.sized, ← h.count] at le

theorem Represents.missing (h : Represents d m) {key : Text} {f : Place → Place}
    (failed : updateFirst (Place.has (dictionaryHash key) key) f d.places = none) : key ∉ m := by
  have slots : (updateFirst (Place.has (dictionaryHash key) key) (fun _ => .unused)
      d.places).map (List.map Place.slot) = clear key d.slots := by
    rw [clear_eq_updateFirst, Dict.slots]
    exact map_updateFirst (has_slot key h.hashed) fun _ _ _ => rfl
  have none :
      updateFirst (Place.has (dictionaryHash key) key) (fun _ => .unused) d.places = .none :=
    updateFirst_eq_none_iff.mpr (updateFirst_eq_none_iff.mp failed)
  rw [none] at slots
  rw [← Finmap.lookup_eq_none, ← Option.toList_eq_nil_iff, ← h.holds.values]
  exact clear_eq_none_iff.mp slots.symm

/-- What a call does to the size of the arrays: nothing, unless they are full and a further key
comes. -/
def Resized (d d' : Dict) (m' : KeyMap) : Prop :=
  d'.size = d.size ∨ d'.size = d.size * 2 ∧ m'.keys.card = d.size + 1

theorem Represents.set (h : Represents d m) (key : Text) (val : Option Text) :
    ∃ d', dictionarySet d key val = some d' ∧ Represents d' (m.insert key val) ∧
      Resized d d' (m.insert key val) := by
  rw [dictionarySet]
  dsimp only
  cases found : (if d.n > 0 then updateFirst (Place.has (dictionaryHash key) key)
      (fun p => { p with val }) d.places else none) with
  | some places =>
      have replaced : updateFirst (Place.has (dictionaryHash key) key)
          (fun p => { p with val }) d.places = some places := by
        split_ifs at found
        exact found
      exact ⟨_, rfl, (h.replaced replaced).2, .inl (length_updateFirst replaced)⟩
  | none =>
      have missing : key ∉ m := by
        split_ifs at found with some
        · exact h.missing found
        · have empty : m.keys.card = 0 := h.count.symm.trans (by omega)
          rw [Finset.card_eq_zero] at empty
          rw [← Finmap.mem_keys, empty]
          exact Finset.notMem_empty key
      split_ifs with full
      · have room : d.n < (⟨d.n, memDouble d.places⟩ : Dict).size := by
          have := h.pos
          rw [Dict.size, length_memDouble, full]
          show d.size < d.size * 2
          omega
        obtain ⟨places, stored, length, after⟩ := h.doubled.stored val missing room
        rw [stored]
        refine ⟨_, rfl, after, .inr ⟨length.trans length_memDouble, ?_⟩⟩
        rw [← after.count, ← full]
      · have room : d.n < d.size := lt_of_le_of_ne h.room full
        obtain ⟨places, stored, length, after⟩ := h.stored val missing room
        rw [stored]
        exact ⟨_, rfl, after, .inl length⟩

theorem Represents.unset (h : Represents d m) (key : Text) :
    Represents (dictionaryUnset d key) (m.erase key) ∧ (dictionaryUnset d key).size = d.size := by
  have slots : (updateFirst (Place.has (dictionaryHash key) key) (fun _ => .unused)
      d.places).map (List.map Place.slot) = clear key d.slots := by
    rw [clear_eq_updateFirst, Dict.slots]
    exact map_updateFirst (has_slot key h.hashed) fun _ _ _ => rfl
  rw [dictionaryUnset]
  cases found : updateFirst (Place.has (dictionaryHash key) key) (fun _ => .unused) d.places with
  | none =>
      have same : m.erase key = m := by
        apply Finmap.ext_lookup
        intro other
        by_cases own : other = key
        · subst own
          rw [Finmap.lookup_erase, Finmap.lookup_eq_none.mpr (h.missing found)]
        · rw [Finmap.lookup_erase_ne own]
      rw [same]
      exact ⟨h, rfl⟩
  | some places =>
      rw [found] at slots
      have size : places.length = d.size := length_updateFirst found
      have holds := h.holds.erase slots.symm
      refine ⟨⟨?_, ?_, ?_, ?_⟩, size⟩
      · show Holds places.length (m.erase key) (places.map Place.slot)
        rw [size]
        exact holds
      · have count : used (places.map Place.slot) + 1 = used d.slots :=
          (clear_eq_some slots.symm).2.1
        show d.n - 1 = (m.erase key).keys.card
        rw [← holds.counted, h.count, ← h.holds.counted, ← count]
        rfl
      · refine h.hashed.updateFirst ?_ found
        intro q _ _ own stored
        cases stored
      · show 0 < places.length
        rw [size]
        exact h.pos

private theorem Represents.call (h : Represents d m) (c : DictCall) :
    ∃ d', dictCall d c = some d' ∧ Represents d' (mapCall m c) ∧ Resized d d' (mapCall m c) := by
  cases c with
  | set key val => exact h.set key val
  | unset key => exact ⟨_, rfl, (h.unset key).1, .inl (h.unset key).2⟩

end step

/-- The size is that of the beginning, doubled some times, and more than half of it was needed at
some time. -/
structure Sized (size : ℤ) (calls : List DictCall) (d : Dict) : Prop where
  doubled : ∃ j, d.size = (dictionaryNew size).size * 2 ^ j ∧
    (j ≠ 0 → ∃ before, before <+: calls ∧ d.size < 2 * (mapAfter before).keys.card)
  enough : ∀ before, before <+: calls → (mapAfter before).keys.card ≤ d.size

theorem mapAfter_concat (calls : List DictCall) (c : DictCall) :
    mapAfter (calls ++ [c]) = mapCall (mapAfter calls) c := List.foldl_concat _ _ _ _

theorem Sized.step {size : ℤ} {calls : List DictCall} {d d' : Dict} {c : DictCall}
    (h : Sized size calls d) (resized : Resized d d' (mapAfter (calls ++ [c])))
    (room : (mapAfter (calls ++ [c])).keys.card ≤ d'.size) : Sized size (calls ++ [c]) d' := by
  have larger : d.size ≤ d'.size := by
    rcases resized with same | ⟨twice, -⟩ <;> omega
  constructor
  · obtain ⟨j, power, needed⟩ := h.doubled
    rcases resized with same | ⟨twice, filled⟩
    · refine ⟨j, same.trans power, ?_⟩
      intro more
      obtain ⟨before, start, half⟩ := needed more
      exact ⟨before, start.trans (List.prefix_append _ _), same.symm ▸ half⟩
    · refine ⟨j + 1, by rw [twice, power, pow_succ, mul_assoc], fun _ => ?_⟩
      exact ⟨calls ++ [c], List.prefix_rfl, by omega⟩
  · intro before start
    rcases List.prefix_concat_iff.mp start with rfl | earlier
    · exact room
    · exact (h.enough before earlier).trans larger

theorem dictAfter_represents (size : ℤ) (calls : List DictCall) :
    ∃ d, dictAfter size calls = some d ∧ Represents d (mapAfter calls) ∧ Sized size calls d := by
  induction calls using List.reverseRecOn with
  | nil =>
      refine ⟨_, rfl, represents_new size, ⟨0, by simp, by simp⟩, ?_⟩
      intro before start
      rw [List.prefix_nil.mp start]
      exact Nat.zero_le _
  | append_singleton calls c ih =>
      obtain ⟨d, reached, represents, sized⟩ := ih
      obtain ⟨d', called, after, resized⟩ := represents.call c
      rw [← mapAfter_concat] at after resized
      refine ⟨d', ?_, after, ?_⟩
      · rw [dictAfter] at reached ⊢
        rw [List.foldlM_append, reached]
        simpa using called
      · exact sized.step resized (after.count ▸ after.room)

/-- In every row of calls none writes outside the arrays; afterwards each key has the value it was
set to last, if it was not unset since, and `n` counts the keys. -/
theorem dictionary_is_map (size : ℤ) (calls : List DictCall) :
    ∃ d, dictAfter size calls = some d ∧ d.n = (mapAfter calls).keys.card ∧
      ∀ key dflt, dictionaryGet d key dflt = mapGet (mapAfter calls) key dflt := by
  obtain ⟨d, reached, represents, -⟩ := dictAfter_represents size calls
  exact ⟨d, reached, represents.count, represents.get⟩

/-- The arrays are never too small for the keys, and are only doubled when they have to be: more
than half of what there is at the end was in use at some time. -/
theorem dictionary_size_needed (size : ℤ) (calls : List DictCall) :
    ∃ d, dictAfter size calls = some d ∧ Sized size calls d := by
  obtain ⟨d, reached, -, sized⟩ := dictAfter_represents size calls
  exact ⟨d, reached, sized⟩

end Mptsd.Inifile.Store
