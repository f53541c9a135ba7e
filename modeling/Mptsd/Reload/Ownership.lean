/- Unit: Mptsd/Reload/Ownership
   source: src/config.c (config_load_channels), src/mptsd.c (spawn_input_threads),
   src/data.c (input_free, proxy_close)
   digest: Who owns the channel objects, over any order of reloads, spawns and exits. -/

import Mptsd.Lib.Ledger
import Mptsd.Reload.Model

set_option autoImplicit false
set_option relaxedAutoImplicit false

namespace Mptsd.Reload.Ownership

open Mptsd.Channels
open Mptsd.Lib.Ledger (Balanced)
open Mptsd.Reload.Model

/-- An address that was handed out and not freed. -/
def Live (s : State) (a : ℕ) : Prop := a < s.heap.next ∧ a ∉ s.freed

/-- The channel objects that inputs free when they end. -/
def privates (inputs : List Input) : List ℕ :=
  (inputs.filter Input.freechannel).map Input.channel

/-- The owners of channel objects: the list of channels and the inputs that free theirs. -/
def owners (s : State) : List ℕ := s.channels ++ privates s.inputs

/-- Inputs refer to live objects, every live object has one owner, and none is freed twice. -/
structure Accounted (s : State) : Prop where
  pointers : ∀ r ∈ s.inputs, Live s r.channel
  owner : ∀ a, Live s a → (owners s).count a = 1
  once : s.freed.Nodup

/-- At a reload: an input has a channel of its own just when it is not in the new list and its mark
is the new cookie. -/
def Clear (s : State) : ReloadStep → Prop
  | .load (some loaded) cookie => ∀ r ∈ s.inputs, r.freechannel = true ↔
      (∀ c ∈ loaded, c.channel.name ≠ r.name) ∧ r.cookie = cookie
  | _ => True

/-- The invariant of runs whose reloads are all clear. -/
structure Owned (s : State) : Prop where
  balanced : Balanced (owners s) s.freed s.heap.next
  listed : ∀ r ∈ s.inputs, r.freechannel = false → r.channel ∈ s.channels
  names : (s.inputs.map Input.name).Nodup

private theorem mem_privates {inputs : List Input} {a : ℕ} :
    a ∈ privates inputs ↔ ∃ r ∈ inputs, r.freechannel = true ∧ r.channel = a := by
  simp [privates, and_assoc]

private theorem Owned.live {s : State} (h : Owned s) {r : Input} (member : r ∈ s.inputs) :
    Live s r.channel := by
  apply h.balanced.mem_owned_iff.mp
  rw [owners, List.mem_append]
  cases own : r.freechannel with
  | false => exact Or.inl (h.listed r member own)
  | true => exact Or.inr (mem_privates.mpr ⟨r, member, own, rfl⟩)

theorem Owned.accounted {s : State} (h : Owned s) : Accounted s :=
  ⟨fun _ => h.live, fun _ live => h.balanced.count_owned live.1 live.2, h.balanced.nodup_freed⟩

section loops

variable (cookie : ℤ) (h : Heap)

private theorem name_set (a b srcId : ℕ) : (h.set a srcId).name b = h.name b := by
  unfold Heap.set Heap.name
  by_cases same : b = a
  · subst same
    dsimp only
    rw [Function.update_self]
    exact (chansrcSet_frame _ srcId).2
  · dsimp only
    rw [Function.update_of_ne same]

/-- What the rewriting loop does to one input, when the channels at `chans` have these names. -/
def Rewritten (name : ℕ → String) (chans : List ℕ) (r r' : Input) : Prop :=
  r'.name = r.name ∧ r'.freechannel = r.freechannel ∧
    ((∃ a ∈ chans, name a = r.name) ∧ r'.channel ∈ chans ∧ r'.cookie = cookie ∨
      (∀ a ∈ chans, name a ≠ r.name) ∧ r' = r)

theorem rewriteRestreamer_heap (chan : ℕ) (inputs : List Input) :
    (rewriteRestreamer cookie chan h inputs).1.next = h.next ∧
      (rewriteRestreamer cookie chan h inputs).1.name = h.name := by
  induction inputs with
  | nil => exact ⟨rfl, rfl⟩
  | cons restr rest ih =>
      rw [rewriteRestreamer]
      split_ifs with found
      · split <;> exact ⟨rfl, funext fun b => name_set h chan b _⟩
      · exact ih

private theorem rewriteRestreamer_inputs (chan : ℕ) (inputs : List Input)
    (names : (inputs.map Input.name).Nodup) :
    List.Forall₂ (Rewritten cookie h.name [chan]) inputs
      (rewriteRestreamer cookie chan h inputs).2 := by
  induction inputs with
  | nil => exact List.Forall₂.nil
  | cons restr rest ih =>
      obtain ⟨first, others⟩ := List.nodup_cons.mp names
      rw [rewriteRestreamer]
      split_ifs with found
      · have untouched : List.Forall₂ (Rewritten cookie h.name [chan]) rest rest := by
          rw [List.forall₂_same]
          intro r member
          refine ⟨rfl, rfl, Or.inr ⟨?_, rfl⟩⟩
          intro a listed same
          obtain rfl := List.mem_singleton.mp listed
          rw [found] at same
          exact first (List.mem_map.mpr ⟨r, member, same.symm⟩)
        split
        · exact List.Forall₂.cons
            ⟨rfl, rfl, Or.inl ⟨⟨chan, List.mem_singleton_self _, found⟩,
              List.mem_singleton_self _, rfl⟩⟩ untouched
        · exact List.Forall₂.cons
            ⟨rfl, rfl, Or.inl ⟨⟨chan, List.mem_singleton_self _, found⟩,
              List.mem_singleton_self _, rfl⟩⟩ untouched
      · refine List.Forall₂.cons ⟨rfl, rfl, Or.inr ⟨?_, rfl⟩⟩ (ih others)
        intro a listed
        obtain rfl := List.mem_singleton.mp listed
        exact found

theorem names_eq {R : Input → Input → Prop} (keeps : ∀ r r', R r r' → r'.name = r.name)
    {inputs inputs' : List Input} (related : List.Forall₂ R inputs inputs') :
    inputs'.map Input.name = inputs.map Input.name := by
  induction related with
  | nil => rfl
  | cons one _ ih =>
      rw [List.map_cons, List.map_cons, keeps _ _ one, ih]

theorem Rewritten.cons {name : ℕ → String} {chan : ℕ} {chans : List ℕ} {r r' r'' : Input}
    (one : Rewritten cookie name [chan] r r') (others : Rewritten cookie name chans r' r'') :
    Rewritten cookie name (chan :: chans) r r'' := by
  obtain ⟨sameName, sameFree, one⟩ := one
  obtain ⟨sameName', sameFree', others⟩ := others
  refine ⟨sameName'.trans sameName, sameFree'.trans sameFree, ?_⟩
  rw [sameName] at others
  rcases others with ⟨⟨a, listed, named⟩, channel, mark⟩ | ⟨unnamed, rfl⟩
  · exact Or.inl ⟨⟨a, List.mem_cons_of_mem _ listed, named⟩, List.mem_cons_of_mem _ channel, mark⟩
  · rcases one with ⟨⟨a, listed, named⟩, channel, mark⟩ | ⟨other, rfl⟩
    · obtain rfl := List.mem_singleton.mp listed
      rw [List.mem_singleton] at channel
      exact Or.inl ⟨⟨a, List.mem_cons_self, named⟩, by rw [channel]; exact List.mem_cons_self, mark⟩
    · exact Or.inr ⟨List.forall_mem_cons.mpr
        ⟨other chan (List.mem_singleton_self _), unnamed⟩, rfl⟩

theorem forall₂_trans {R S T : Input → Input → Prop}
    (compose : ∀ r r' r'', R r r' → S r' r'' → T r r'') {l l' l'' : List Input}
    (one : List.Forall₂ R l l') (two : List.Forall₂ S l' l'') : List.Forall₂ T l l'' := by
  induction one generalizing l'' with
  | nil =>
      cases two
      exact List.Forall₂.nil
  | cons head _ ih =>
      cases two with
      | cons head' tail' => exact List.Forall₂.cons (compose _ _ _ head head') (ih tail')

theorem exists_left {R : Input → Input → Prop} {l l' : List Input} (related : List.Forall₂ R l l')
    {r' : Input} (member : r' ∈ l') : ∃ r ∈ l, R r r' := by
  induction related with
  | nil => cases member
  | @cons a b as bs one _ ih =>
      rcases List.mem_cons.mp member with rfl | later
      · exact ⟨a, List.mem_cons_self, one⟩
      · obtain ⟨r, inside, related⟩ := ih later
        exact ⟨r, List.mem_cons_of_mem _ inside, related⟩

private theorem exists_right {R : Input → Input → Prop} {l l' : List Input}
    (related : List.Forall₂ R l l') {r : Input} (member : r ∈ l) : ∃ r' ∈ l', R r r' := by
  obtain ⟨r', inside, one⟩ := exists_left (List.Forall₂.flip related) member
  exact ⟨r', inside, one⟩

theorem rewriteRestreamers_spec (chans : List ℕ) (inputs : List Input)
    (names : (inputs.map Input.name).Nodup) :
    (rewriteRestreamers cookie chans h inputs).1.next = h.next ∧
      List.Forall₂ (Rewritten cookie h.name chans) inputs
        (rewriteRestreamers cookie chans h inputs).2 := by
  induction chans generalizing h inputs with
  | nil =>
      refine ⟨rfl, ?_⟩
      rw [rewriteRestreamers, List.forall₂_same]
      intro r _
      exact ⟨rfl, rfl, Or.inr ⟨List.forall_mem_nil _, rfl⟩⟩
  | cons chan rest ih =>
      obtain ⟨next, name⟩ := rewriteRestreamer_heap cookie h chan inputs
      have one := rewriteRestreamer_inputs cookie h chan inputs names
      have names' := names_eq (fun r r' rewritten => rewritten.1) one
      obtain ⟨next', others⟩ := ih (rewriteRestreamer cookie chan h inputs).1
        (rewriteRestreamer cookie chan h inputs).2 (by rw [names']; exact names)
      rw [name] at others
      refine ⟨next'.trans next, forall₂_trans ?_ one others⟩
      intro r r' r'' first second
      exact first.cons cookie second

/-- What the killing loop does to one input, with these addresses for the new objects. -/
def Killed (low high : ℕ) (r r' : Input) : Prop :=
  r.cookie = cookie ∧ r' = r ∨
    r.cookie ≠ cookie ∧ r'.name = r.name ∧ r'.freechannel = true ∧ low ≤ r'.channel ∧
      r'.channel < high

private theorem Killed.mono {low low' high high' : ℕ} (lower : low' ≤ low) (higher : high ≤ high')
    {r r' : Input} (killed : Killed cookie low high r r') : Killed cookie low' high' r r' := by
  rcases killed with kept | ⟨other, name, own, above, below⟩
  · exact Or.inl kept
  · exact Or.inr ⟨other, name, own, by omega, by omega⟩

private theorem killRestreamers_spec (inputs : List Input) :
    h.next ≤ (killRestreamers cookie h inputs).1.next ∧
      List.Forall₂ (Killed cookie h.next (killRestreamers cookie h inputs).1.next) inputs
        (killRestreamers cookie h inputs).2 ∧
      (privates (killRestreamers cookie h inputs).2).Perm
        (List.range' h.next ((killRestreamers cookie h inputs).1.next - h.next) ++
          privates (inputs.filter fun r => r.cookie = cookie)) := by
  induction inputs generalizing h with
  | nil =>
      refine ⟨le_rfl, List.Forall₂.nil, ?_⟩
      simp [killRestreamers, privates]
  | cons r rest ih =>
      rw [killRestreamers]
      by_cases mark : r.cookie = cookie
      · rw [if_neg (not_not.mpr mark)]
        obtain ⟨le, killed, same⟩ := ih h
        refine ⟨le, List.Forall₂.cons (Or.inl ⟨mark, rfl⟩) killed, ?_⟩
        rw [List.filter_cons_of_pos (by simpa using mark)]
        cases own : r.freechannel with
        | false => simpa [privates, own] using same
        | true =>
            simp only [privates, List.filter_cons, own, if_true, List.map_cons] at same ⊢
            exact (same.cons _).trans List.perm_middle.symm
      · rw [if_pos mark]
        dsimp only
        obtain ⟨le, killed, same⟩ := ih (h.alloc (h.memory r.channel).copy).2
        have address := h.alloc_address (h.memory r.channel).copy
        rw [Heap.alloc_next] at le killed same
        generalize killRestreamers cookie (h.alloc (h.memory r.channel).copy).2 rest = others
          at le killed same ⊢
        obtain ⟨k, high⟩ := Nat.exists_eq_add_of_le le
        refine ⟨by omega, List.Forall₂.cons ?_ (killed.imp fun _ _ one =>
          one.mono cookie (Nat.le_succ _) le_rfl), ?_⟩
        · exact Or.inr ⟨mark, rfl, rfl, address.ge, lt_of_eq_of_lt address (by omega)⟩
        · rw [List.filter_cons_of_neg (by simpa using mark), high,
            show h.next + 1 + k - h.next = k + 1 by omega, List.range'_succ, address]
          rw [high, Nat.add_sub_cancel_left] at same
          simp only [privates, List.filter_cons, if_true, List.map_cons, List.cons_append] at same ⊢
          exact same.cons _

theorem newChannels_spec (loaded : List ChannelObject) :
    (newChannels h loaded).1.next = h.next + loaded.length ∧
      (newChannels h loaded).2 = List.range' h.next loaded.length ∧
      (∀ a < h.next, (newChannels h loaded).1.memory a = h.memory a) ∧
      (newChannels h loaded).2.map (newChannels h loaded).1.name =
        loaded.map fun c => c.channel.name := by
  induction loaded generalizing h with
  | nil => exact ⟨rfl, rfl, fun _ _ => rfl, rfl⟩
  | cons c rest ih =>
      obtain ⟨next, addresses, kept, names⟩ := ih (h.alloc c).2
      have own : (newChannels (h.alloc c).2 rest).1.memory h.next = c := by
        rw [kept h.next (Nat.lt_succ_self _), Heap.alloc_own]
      rw [newChannels]
      dsimp only
      refine ⟨?_, ?_, ?_, ?_⟩
      · rw [next, List.length_cons, Heap.alloc_next]
        omega
      · rw [addresses, List.length_cons, List.range'_succ]
        rfl
      · intro a below
        rw [kept a (Nat.lt_succ_of_lt below), Heap.alloc_others _ _ below]
      · have name : (newChannels (h.alloc c).2 rest).1.name h.next = c.channel.name := by
          rw [Heap.name, own]
        rw [List.map_cons, List.map_cons, names]
        exact congrArg (· :: _) name

end loops

section load

variable (s : State) (loaded : List ChannelObject) (cookie : ℤ)

/-- What a reload leaves of one input. -/
def Reloaded (r r' : Input) : Prop :=
  (∃ c ∈ loaded, c.channel.name = r.name) ∧ r'.freechannel = r.freechannel ∧
      s.heap.next ≤ r'.channel ∧ r'.channel < s.heap.next + loaded.length ∨
    (∀ c ∈ loaded, c.channel.name ≠ r.name) ∧ r.cookie = cookie ∧ r' = r ∨
    (∀ c ∈ loaded, c.channel.name ≠ r.name) ∧ r.cookie ≠ cookie ∧ r'.freechannel = true ∧
      s.heap.next + loaded.length ≤ r'.channel

/-- What a reload does, up to the owners of the objects. -/
structure Load (s' : State) : Prop where
  channels : s'.channels = List.range' s.heap.next loaded.length
  freed : s'.freed = s.freed ++ s.channels
  next : s.heap.next + loaded.length ≤ s'.heap.next
  names : s'.inputs.map Input.name = s.inputs.map Input.name
  inputs : List.Forall₂ (Reloaded s loaded cookie) s.inputs s'.inputs

private theorem named_iff (name : String) :
    (∃ a ∈ (newChannels s.heap loaded).2, (newChannels s.heap loaded).1.name a = name) ↔
      ∃ c ∈ loaded, c.channel.name = name := by
  have names := (newChannels_spec s.heap loaded).2.2.2
  have same := congrArg (fun l => name ∈ l) names
  simpa using same

theorem unnamed_iff (name : String) :
    (∀ a ∈ (newChannels s.heap loaded).2, (newChannels s.heap loaded).1.name a ≠ name) ↔
      ∀ c ∈ loaded, c.channel.name ≠ name := by
  have named := not_congr (named_iff s loaded name)
  push Not at named
  exact named

private theorem load_spec (names : (s.inputs.map Input.name).Nodup) :
    Load s loaded cookie (configLoadChannels s (some loaded) cookie) := by
  obtain ⟨next, addresses, -, -⟩ := newChannels_spec s.heap loaded
  obtain ⟨next', rewritten⟩ := rewriteRestreamers_spec cookie (newChannels s.heap loaded).1
    (newChannels s.heap loaded).2 s.inputs names
  obtain ⟨high, killed, -⟩ := killRestreamers_spec cookie
    (rewriteRestreamers cookie (newChannels s.heap loaded).2 (newChannels s.heap loaded).1
      s.inputs).1
    (rewriteRestreamers cookie (newChannels s.heap loaded).2 (newChannels s.heap loaded).1
      s.inputs).2
  rw [next', next] at high killed
  refine ⟨addresses, rfl, high, ?_, ?_⟩
  · refine (names_eq ?_ killed).trans (names_eq (fun r r' one => one.1) rewritten)
    rintro r r' (⟨-, rfl⟩ | ⟨-, name, -⟩)
    · rfl
    · exact name
  · refine forall₂_trans ?_ rewritten killed
    rintro r r' r'' ⟨name, own, one⟩ two
    rw [named_iff, unnamed_iff, addresses, List.mem_range'_1] at one
    rcases one with ⟨named, ⟨low, below⟩, mark⟩ | ⟨unnamed, rfl⟩
    · rcases two with ⟨-, rfl⟩ | ⟨other, -⟩
      · exact Or.inl ⟨named, own, low, below⟩
      · exact absurd mark other
    · rcases two with ⟨mark, rfl⟩ | ⟨other, -, free, low, -⟩
      · exact Or.inr (Or.inl ⟨unnamed, mark, rfl⟩)
      · exact Or.inr (Or.inr ⟨unnamed, other, free, low⟩)

private theorem privates_rewritten {name : ℕ → String} {chans : List ℕ}
    {inputs inputs' : List Input}
    (rewritten : List.Forall₂ (Rewritten cookie name chans) inputs inputs')
    (clear : ∀ r ∈ inputs, r.freechannel = true ↔
      (∀ a ∈ chans, name a ≠ r.name) ∧ r.cookie = cookie) :
    privates (inputs'.filter fun r => r.cookie = cookie) = privates inputs := by
  induction rewritten with
  | nil => rfl
  | @cons r r' rest rest' one _ ih =>
      have others := ih fun r member => clear r (List.mem_cons_of_mem _ member)
      have own := clear r List.mem_cons_self
      obtain ⟨-, free, one⟩ := one
      rcases one with ⟨⟨a, listed, named⟩, -, mark⟩ | ⟨unnamed, rfl⟩
      · have shared : r.freechannel = false := by
          rw [← Bool.not_eq_true]
          intro freed
          exact (own.mp freed).1 a listed named
        rw [List.filter_cons_of_pos (by simpa using mark)]
        simpa [privates, shared, free] using others
      · by_cases mark : r'.cookie = cookie
        · have freed : r'.freechannel = true := own.mpr ⟨unnamed, mark⟩
          rw [List.filter_cons_of_pos (by simpa using mark)]
          simpa [privates, freed] using others
        · have shared : r'.freechannel = false := by
            rw [← Bool.not_eq_true]
            intro freed
            exact mark (own.mp freed).2
          rw [List.filter_cons_of_neg (by simpa using mark)]
          simpa [privates, shared] using others

private theorem privates_load (names : (s.inputs.map Input.name).Nodup)
    (clear : Clear s (.load (some loaded) cookie)) :
    (privates (configLoadChannels s (some loaded) cookie).inputs).Perm
      (List.range' (s.heap.next + loaded.length)
        ((configLoadChannels s (some loaded) cookie).heap.next -
          (s.heap.next + loaded.length)) ++ privates s.inputs) := by
  obtain ⟨next, -, -, -⟩ := newChannels_spec s.heap loaded
  obtain ⟨next', rewritten⟩ := rewriteRestreamers_spec cookie (newChannels s.heap loaded).1
    (newChannels s.heap loaded).2 s.inputs names
  obtain ⟨-, -, same⟩ := killRestreamers_spec cookie
    (rewriteRestreamers cookie (newChannels s.heap loaded).2 (newChannels s.heap loaded).1
      s.inputs).1
    (rewriteRestreamers cookie (newChannels s.heap loaded).2 (newChannels s.heap loaded).1
      s.inputs).2
  rw [next', next, privates_rewritten cookie rewritten ?_] at same
  · exact same
  · intro r member
    rw [unnamed_iff]
    exact clear r member

variable {s loaded cookie}

theorem Owned.load (h : Owned s) (clear : Clear s (.load (some loaded) cookie)) :
    Owned (configLoadChannels s (some loaded) cookie) := by
  have spec := load_spec s loaded cookie h.names
  have same := privates_load s loaded cookie h.names clear
  generalize configLoadChannels s (some loaded) cookie = s' at spec same ⊢
  obtain ⟨k, high⟩ := Nat.exists_eq_add_of_le spec.next
  rw [high, Nat.add_sub_cancel_left] at same
  refine ⟨?_, ?_, ?_⟩
  · -- the new channels and the copies are handed out, then the old channels are freed
    have grown := (h.balanced.alloc loaded.length).alloc k
    rw [← high] at grown
    rw [spec.freed]
    apply Balanced.free
    apply grown.congr
    rw [owners, owners, spec.channels]
    have merged := (same.append_left (List.range' s.heap.next loaded.length)).append_left s.channels
    apply merged.trans
    rw [List.perm_iff_count]
    intro a
    simp only [List.count_append]
    omega
  · intro r' member shared
    obtain ⟨r, inside, one⟩ := exists_left spec.inputs member
    rw [spec.channels, List.mem_range'_1]
    rcases one with ⟨-, -, low, below⟩ | ⟨unnamed, mark, rfl⟩ | ⟨-, -, own, -⟩
    · exact ⟨low, below⟩
    · rw [(clear r' inside).mpr ⟨unnamed, mark⟩] at shared
      cases shared
    · rw [own] at shared
      cases shared
  · rw [spec.names]
    exact h.names

private theorem Owned.clear_of_accounted (h : Owned s)
    (accounted : Accounted (configLoadChannels s (some loaded) cookie)) :
    Clear s (.load (some loaded) cookie) := by
  have spec := load_spec s loaded cookie h.names
  generalize configLoadChannels s (some loaded) cookie = s' at spec accounted
  have next := spec.next
  intro r member
  obtain ⟨r', member', one⟩ := exists_right spec.inputs member
  have live := h.live member
  rcases one with ⟨⟨c, listed, named⟩, free, low, below⟩ | ⟨unnamed, mark, rfl⟩ |
    ⟨unnamed, other, -, -⟩
  · -- the input would own a channel of the list
    refine ⟨fun own => ?_, fun absent => absurd named (absent.1 c listed)⟩
    have live' : Live s' r'.channel := accounted.pointers r' member'
    have single := accounted.owner r'.channel live'
    have inList : r'.channel ∈ s'.channels := by
      rw [spec.channels, List.mem_range'_1]
      exact ⟨low, below⟩
    have inPrivates : r'.channel ∈ privates s'.inputs :=
      mem_privates.mpr ⟨r', member', free.trans own, rfl⟩
    rw [owners, List.count_append] at single
    have one := List.count_pos_iff.mpr inList
    have two := List.count_pos_iff.mpr inPrivates
    omega
  · -- an input that was passed over refers to a channel of the old list
    refine ⟨fun _ => ⟨unnamed, mark⟩, fun _ => ?_⟩
    by_contra shared
    have old := h.listed r' member (by simpa using shared)
    have gone := (accounted.pointers r' member').2
    rw [spec.freed] at gone
    exact gone (List.mem_append_right _ old)
  · -- the object the input had for its own is lost
    refine ⟨fun own => ?_, fun marked => absurd marked.2 other⟩
    have owned : r.channel ∈ privates s.inputs := mem_privates.mpr ⟨r, member, own, rfl⟩
    have kept : r.channel ∉ s.channels := fun listed =>
      (List.nodup_append.mp h.balanced.nodup_owned).2.2 _ listed _ owned rfl
    have live' : Live s' r.channel := by
      refine ⟨by have := live.1; omega, ?_⟩
      rw [spec.freed, List.mem_append]
      exact not_or.mpr ⟨live.2, kept⟩
    have single := accounted.owner r.channel live'
    have found : r.channel ∈ owners s' := List.count_pos_iff.mp (by omega)
    rw [owners, List.mem_append, spec.channels, List.mem_range'_1, mem_privates] at found
    have below := live.1
    rcases found with ⟨low, -⟩ | ⟨r'', member'', own'', same⟩
    · omega
    · obtain ⟨r₀, inside, one⟩ := exists_left spec.inputs member''
      rcases one with ⟨-, -, low, -⟩ | ⟨-, mark, rfl⟩ | ⟨-, -, -, low⟩
      · omega
      · have distinct := (List.nodup_append.mp h.balanced.nodup_owned).2.1
        have equal : r'' = r := List.inj_on_of_nodup_map distinct
          (List.mem_filter.mpr ⟨inside, own''⟩) (List.mem_filter.mpr ⟨member, own⟩) same
        exact absurd (equal ▸ mark) other
      · omega

end load

section others

variable {s : State}

private theorem privates_append (inputs : List Input) (name : String) (c : ℕ) :
    privates (inputs ++ [inputNew name c]) = privates inputs := by
  simp [privates, inputNew]

theorem Owned.spawn (h : Owned s) : Owned (spawnInputThreads s) := by
  have loop : ∀ chans : List ℕ, chans ⊆ s.channels → ∀ inputs,
      Owned { s with inputs } →
        Owned { s with inputs := chans.foldl (spawnInputThread s.heap) inputs } := by
    intro chans
    induction chans with
    | nil => exact fun _ _ owned => owned
    | cons c rest ih =>
        intro part inputs owned
        apply ih fun a member => part (List.mem_cons_of_mem _ member)
        rw [spawnInputThread]
        split_ifs with active
        · exact owned
        · refine ⟨?_, ?_, ?_⟩
          · rw [owners]
            rw [privates_append]
            exact owned.balanced
          · intro r member shared
            rcases List.mem_append.mp member with before | new
            · exact owned.listed r before shared
            · obtain rfl := List.mem_singleton.mp new
              exact part List.mem_cons_self
          · rw [List.map_append, List.map_singleton, List.nodup_append]
            refine ⟨owned.names, List.nodup_singleton _, ?_⟩
            rintro name member other single rfl
            obtain ⟨r, inside, rfl⟩ := List.mem_map.mp member
            rw [List.mem_singleton] at single
            exact active (List.any_eq_true.mpr ⟨r, inside, by simpa [inputNew] using single⟩)
  exact loop s.channels (List.Subset.refl _) s.inputs h

theorem Owned.exit (h : Owned s) (i : ℕ) : Owned (proxyClose s i) := by
  rw [proxyClose]
  cases found : s.inputs[i]? with
  | none => exact h
  | some r =>
      obtain ⟨inside, rfl⟩ := List.getElem?_eq_some_iff.mp found
      have split : s.inputs.Perm (s.inputs[i] :: s.inputs.eraseIdx i) :=
        (List.getElem_cons_eraseIdx_perm inside).symm
      have others : ((s.inputs.eraseIdx i).map Input.name).Nodup :=
        h.names.sublist ((List.eraseIdx_sublist _ _).map _)
      have listed : ∀ r ∈ s.inputs.eraseIdx i, r.freechannel = false → r.channel ∈ s.channels :=
        fun r member => h.listed r (List.mem_of_mem_eraseIdx member)
      have parted := (split.filter Input.freechannel).map Input.channel
      refine ⟨?_, listed, others⟩
      dsimp only
      split_ifs with own
      · rw [List.filter_cons_of_pos own, List.map_cons] at parted
        apply Balanced.free
        apply h.balanced.congr
        show (s.inputs[i].channel :: (s.channels ++ privates (s.inputs.eraseIdx i))).Perm (owners s)
        exact List.perm_middle.symm.trans (parted.symm.append_left s.channels)
      · rw [List.filter_cons_of_neg own] at parted
        apply h.balanced.congr
        rw [owners, owners]
        exact parted.symm.append_left _

end others

section run

variable (memory : ℕ → ChannelObject)

private theorem owned_start : Owned (start memory) :=
  ⟨Balanced.nil, List.forall_mem_nil _, List.nodup_nil⟩

theorem Owned.step {s : State} (h : Owned s) {step : ReloadStep} (clear : Clear s step) :
    Owned (reloadStep s step) := by
  cases step with
  | load loaded cookie =>
      cases loaded with
      | none => exact h
      | some loaded => exact h.load clear
  | spawn => exact h.spawn
  | exit i => exact h.exit i

private theorem Owned.clear_iff {s : State} (h : Owned s) (step : ReloadStep) :
    Accounted (reloadStep s step) ↔ Clear s step := by
  refine ⟨fun accounted => ?_, fun clear => (h.step clear).accounted⟩
  cases step with
  | load loaded cookie =>
      cases loaded with
      | none => exact trivial
      | some loaded => exact h.clear_of_accounted accounted
  | spawn => exact trivial
  | exit i => exact trivial

theorem owned_after (steps : List ReloadStep)
    (clear : ∀ front step, front ++ [step] <+: steps → Clear (reloadAfter memory front) step) :
    Owned (reloadAfter memory steps) := by
  induction steps using List.reverseRecOn with
  | nil => exact owned_start memory
  | append_singleton steps step ih =>
      rw [reloadAfter_concat]
      have before := ih fun front s part => clear front s (part.trans (List.prefix_append _ _))
      exact before.step (clear steps step List.prefix_rfl)

/-- In every run of reloads, spawns and exits: the channel objects are accounted for in every state
if and only if every reload is clear. -/
theorem accounted_iff (memory : ℕ → ChannelObject) (steps : List ReloadStep) :
    (∀ front, front <+: steps → Accounted (reloadAfter memory front)) ↔
      ∀ front step, front ++ [step] <+: steps → Clear (reloadAfter memory front) step := by
  constructor
  · intro accounted
    induction steps using List.reverseRecOn with
    | nil =>
        intro front step part
        simp at part
    | append_singleton steps last ih =>
        have before := ih fun front part => accounted front (part.trans (List.prefix_append _ _))
        intro front step part
        rcases List.prefix_concat_iff.mp part with same | part
        · obtain ⟨rfl, rest⟩ := List.append_inj' same rfl
          obtain rfl : step = last := by simpa using rest
          apply ((owned_after memory front before).clear_iff step).mp
          rw [← reloadAfter_concat]
          exact accounted _ List.prefix_rfl
        · exact before front step part
  · intro clear front part
    exact (owned_after memory front fun front' step part' =>
      clear front' step (part'.trans part)).accounted

end run

/-- A channel object with this name. -/
def sampleObject : ChannelObject := ⟨sampleChannel 1 0, by decide, by decide⟩

/-- The channel is loaded and served, taken out of the file, and put back before its input has
ended. -/
def readded : List ReloadStep :=
  [.load (some [sampleObject]) 1, .spawn, .load (some []) 2, .load (some [sampleObject]) 3]

/-- The input frees the channel of the list when it ends, and the next reload frees it again. -/
theorem readded_freed_twice :
    ¬ Accounted (reloadAfter (fun _ => sampleObject) readded) ∧
      (reloadAfter (fun _ => sampleObject) (readded ++ [.exit 0, .load (some []) 4])).freed =
        [0, 2, 2] := by
  refine ⟨fun accounted => ?_, by decide +kernel⟩
  have single := accounted.owner 2 (by unfold Live; decide +kernel)
  revert single
  decide +kernel

end Mptsd.Reload.Ownership
