/- Unit: Mptsd/Reload/Reconcile
   source: src/config.c (config_load_channels, after the parsing), src/data.c (chansrc_set,
   chansrc_next, channel_new)
   digest: What a reload makes of every running input: it goes on with the source it has, goes over
   to the first of its new channel, or ends with a channel of its own. -/

import Mptsd.Reload.Ownership
import Mptsd.Sources

set_option autoImplicit false
set_option relaxedAutoImplicit false

namespace Mptsd.Reload.Reconcile

open Mptsd.Channels
open Mptsd.Sources
open Mptsd.Reload.Model
open Mptsd.Reload.Ownership (forall₂_trans names_eq rewriteRestreamer_heap newChannels_spec)

/-- The source that a channel is on. -/
def heldSource (h : Heap) (a : ℕ) : Option String := (h.memory a).channel.source

/-- The channel `c` has this source. -/
def Offers (c : Channel) (source : Option String) : Prop :=
  ∃ j < c.numSrc, c.sources j = source

/-- A channel of the file, as the reload leaves it for an input that was on the source `old`. -/
structure Served (c : Channel) (old : Option String) (r r' : Input) (new : Channel) : Prop where
  channel : new = { c with currSrc := new.currSrc, source := new.source }
  dienow : r'.dienow = r.dienow
  kept : Offers c old → new.source = old ∧ r'.reconnect = r.reconnect
  lost : ¬ Offers c old → r'.reconnect = true ∧ (chansrcNext new).source = c.sources 0

/-- An input that is to end, with a channel of its own that has the source `old` and no other. -/
structure Dismissed (s' : State) (old : Option String) (r' : Input) : Prop where
  dienow : r'.dienow = true
  freechannel : r'.freechannel = true
  unlisted : r'.channel ∉ s'.channels
  own : (s'.inputs.map Input.channel).count r'.channel = 1
  sourced : Sourced (s'.heap.memory r'.channel).channel
  single : (s'.heap.memory r'.channel).channel.numSrc = 1
  source : (s'.heap.memory r'.channel).channel.source = old

/-- What a reload makes of one input. -/
structure Reconciled (s s' : State) (loaded : List ChannelObject) (r r' : Input) : Prop where
  name : r'.name = r.name
  served : ∀ (k : ℕ) (c : ChannelObject), loaded[k]? = some c → c.channel.name = r.name →
    s'.channels[k]? = some r'.channel ∧
      Served c.channel (heldSource s.heap r.channel) r r' (s'.heap.memory r'.channel).channel
  dismissed : (∀ c ∈ loaded, c.channel.name ≠ r.name) →
    Dismissed s' (heldSource s.heap r.channel) r'

section srcFound

variable {c : Channel} {old : Option String}

private theorem srcFound_spec (c : Channel) (old : Option String) :
    match srcFound c old with
    | some i => i < c.numSrc ∧ c.sources i = old
    | none => ¬ Offers c old := by
  rw [srcFound, Offers]
  generalize c.numSrc = n
  induction n with
  | zero => simp
  | succ n ih =>
      rw [List.range_succ, List.foldl_append, List.foldl_cons, List.foldl_nil]
      by_cases here : c.sources n = old
      · rw [if_pos here]
        exact ⟨Nat.lt_succ_self n, here⟩
      · rw [if_neg here]
        split at ih
        · exact ⟨Nat.lt_succ_of_lt ih.1, ih.2⟩
        · rintro ⟨j, below, same⟩
          rcases Nat.lt_succ_iff_lt_or_eq.mp below with earlier | rfl
          · exact ih ⟨j, earlier, same⟩
          · exact here same

/-- The place of the source that the reload sets. -/
def chosen (c : Channel) (old : Option String) : ℕ := (srcFound c old).getD (c.numSrc - 1)

/-- An input after it was given the channel at `chan`. -/
def retarget (cookie : ℤ) (chan : ℕ) (found : Bool) (r : Input) : Input :=
  { r with cookie, channel := chan, reconnect := r.reconnect || !found }

private theorem served_chosen (sourced : Sourced c) (cookie : ℤ) (chan : ℕ) (r : Input) :
    Served c old r (retarget cookie chan (srcFound c old).isSome r)
      (chansrcSet c (chosen c old)) := by
  have found := srcFound_spec c old
  have positive := sourced.numSrc_pos
  have inside : chosen c old < c.numSrc := by
    rw [chosen]
    cases place : srcFound c old with
    | none =>
        rw [Option.getD_none]
        omega
    | some i =>
        rw [place] at found
        exact found.1
  rw [sourced.chansrcSet_eq, if_pos inside]
  refine ⟨rfl, rfl, ?_, ?_⟩
  · intro offered
    cases place : srcFound c old with
    | none =>
        rw [place] at found
        exact absurd offered found
    | some i =>
        rw [place] at found
        refine ⟨?_, by simp [retarget]⟩
        simp only [chosen, place, Option.getD_some]
        exact found.2
  · intro missing
    cases place : srcFound c old with
    | none =>
        refine ⟨by simp [retarget], ?_⟩
        have last : chosen c old = c.numSrc - 1 := by simp [chosen, place]
        rw [(sourced.choose inside).chansrcNext_eq]
        dsimp only
        rw [last, Nat.sub_add_cancel positive, Nat.mod_self]
    | some i =>
        rw [place] at found
        exact absurd ⟨i, found⟩ missing

end srcFound

section rewriting

variable {cookie : ℤ} {h h' : Heap} {chan : ℕ} {chans : List ℕ} {inputs : List Input}

/-- What the rewriting makes of one input, from the heap `h` to the heap `h'`. -/
def Moved (cookie : ℤ) (h h' : Heap) (chans : List ℕ) (r r' : Input) : Prop :=
  (∃ a ∈ chans, h.name a = r.name ∧
      r' = retarget cookie a (srcFound (h.memory a).channel (heldSource h r.channel)).isSome r ∧
      (h'.memory a).channel =
        chansrcSet (h.memory a).channel (chosen (h.memory a).channel (heldSource h r.channel))) ∨
    (∀ a ∈ chans, h.name a ≠ r.name) ∧ r' = r ∧ h'.memory r.channel = h.memory r.channel

private theorem rewriteRestreamer_cons_of_eq {r : Input} {rest : List Input}
    (named : h.name chan = r.name) :
    rewriteRestreamer cookie chan h (r :: rest) =
      (h.set chan (chosen (h.memory chan).channel (heldSource h r.channel)),
        retarget cookie chan
          (srcFound (h.memory chan).channel (heldSource h r.channel)).isSome r :: rest) := by
  rw [rewriteRestreamer]
  rw [if_pos named]
  change (match srcFound (h.memory chan).channel (heldSource h r.channel) with
    | some i => _ | none => _) = _
  rw [chosen]
  cases srcFound (h.memory chan).channel (heldSource h r.channel) with
  | none => simp [retarget]
  | some i => simp [retarget]

private theorem rewriteRestreamer_memory (inputs : List Input) {a : ℕ} (other : a ≠ chan) :
    (rewriteRestreamer cookie chan h inputs).1.memory a = h.memory a := by
  induction inputs with
  | nil => rfl
  | cons r rest ih =>
      by_cases named : h.name chan = r.name
      · rw [rewriteRestreamer_cons_of_eq named]
        exact Function.update_of_ne other _ _
      · rw [rewriteRestreamer]
        rw [if_neg named]
        exact ih

variable (cookie h) in
private theorem moved_rewriteRestreamer (names : (inputs.map Input.name).Nodup)
    (apart : ∀ r ∈ inputs, r.channel ≠ chan) :
    List.Forall₂ (Moved cookie h (rewriteRestreamer cookie chan h inputs).1 [chan]) inputs
      (rewriteRestreamer cookie chan h inputs).2 := by
  have untouched : ∀ r : Input, r.channel ≠ chan → h.name chan ≠ r.name → ∀ l : List Input,
      Moved cookie h (rewriteRestreamer cookie chan h l).1 [chan] r r := by
    intro r away other l
    refine Or.inr ⟨?_, rfl, rewriteRestreamer_memory l away⟩
    intro a listed
    rw [List.mem_singleton.mp listed]
    exact other
  induction inputs with
  | nil => exact List.Forall₂.nil
  | cons r rest ih =>
      obtain ⟨first, others⟩ := List.nodup_cons.mp names
      rw [List.forall_mem_cons] at apart
      by_cases named : h.name chan = r.name
      · have tail : ∀ q ∈ rest, h.name chan ≠ q.name := by
          intro q member same
          exact first (List.mem_map.mpr ⟨q, member, same.symm.trans named⟩)
        have left : List.Forall₂ (Moved cookie h (rewriteRestreamer cookie chan h (r :: rest)).1
            [chan]) rest rest := by
          rw [List.forall₂_same]
          exact fun q member => untouched q (apart.2 q member) (tail q member) (r :: rest)
        rw [rewriteRestreamer_cons_of_eq named] at left ⊢
        refine List.Forall₂.cons (Or.inl ⟨chan, List.mem_singleton_self _, named, rfl, ?_⟩) left
        simp [Heap.set, ChannelObject.set]
      · have same : rewriteRestreamer cookie chan h (r :: rest) =
            ((rewriteRestreamer cookie chan h rest).1,
              r :: (rewriteRestreamer cookie chan h rest).2) := by
          rw [rewriteRestreamer, if_neg named]
        rw [same]
        exact List.Forall₂.cons (untouched r apart.1 named rest) (ih others apart.2)

private theorem Moved.cons {h₁ : Heap} {r r' r'' : Input} (name : h₁.name = h.name)
    (distinct : ∀ a ∈ chans, h.name a ≠ h.name chan)
    (memory : ∀ a, a ≠ chan → h₁.memory a = h.memory a)
    (one : Moved cookie h h₁ [chan] r r') (others : Moved cookie h₁ h' chans r' r'') :
    Moved cookie h h' (chan :: chans) r r'' := by
  rcases one with ⟨a, listed, named, rfl, set⟩ | ⟨other, rfl, kept⟩
  · obtain rfl := List.mem_singleton.mp listed
    rcases others with ⟨b, later, again, -⟩ | ⟨-, rfl, still⟩
    · rw [name] at again
      exact absurd (again.trans named.symm) (distinct b later)
    · exact Or.inl ⟨a, List.mem_cons_self, named, rfl, (congrArg _ still).trans set⟩
  · rcases others with ⟨b, later, named, rfl, set⟩ | ⟨unnamed, rfl, still⟩
    · rw [name] at named
      have own : b ≠ chan := by
        rintro rfl
        exact distinct b later rfl
      have source : heldSource h₁ r'.channel = heldSource h r'.channel := by
        unfold heldSource
        rw [kept]
      rw [source, memory b own] at set ⊢
      exact Or.inl ⟨b, List.mem_cons_of_mem _ later, named, rfl, set⟩
    · rw [name] at unnamed
      refine Or.inr ⟨List.forall_mem_cons.mpr ⟨other chan (List.mem_singleton_self _), unnamed⟩,
        rfl, still.trans kept⟩

private theorem moved_rewriteRestreamers (distinct : (chans.map h.name).Nodup)
    (names : (inputs.map Input.name).Nodup) (apart : ∀ r ∈ inputs, r.channel ∉ chans) :
    List.Forall₂ (Moved cookie h (rewriteRestreamers cookie chans h inputs).1 chans) inputs
      (rewriteRestreamers cookie chans h inputs).2 := by
  induction chans generalizing h inputs with
  | nil =>
      rw [rewriteRestreamers, List.forall₂_same]
      exact fun r _ => Or.inr ⟨List.forall_mem_nil _, rfl, rfl⟩
  | cons chan rest ih =>
      obtain ⟨first, different⟩ := List.nodup_cons.mp distinct
      have others : ∀ a ∈ rest, h.name a ≠ h.name chan := by
        intro a listed same
        exact first (List.mem_map.mpr ⟨a, listed, same⟩)
      obtain ⟨-, name⟩ := rewriteRestreamer_heap cookie h chan inputs
      have one := moved_rewriteRestreamer cookie h names fun r member same =>
        apart r member (same ▸ List.mem_cons_self)
      have names' : (rewriteRestreamer cookie chan h inputs).2.map Input.name =
          inputs.map Input.name := by
        refine names_eq ?_ one
        rintro r r' (⟨a, -, -, rfl, -⟩ | ⟨-, rfl, -⟩) <;> rfl
      have away : ∀ r' ∈ (rewriteRestreamer cookie chan h inputs).2, r'.channel ∉ rest := by
        intro r' member listed
        obtain ⟨r, inside, moved⟩ := Ownership.exists_left one member
        rcases moved with ⟨a, taken, -, rfl, -⟩ | ⟨-, rfl, -⟩
        · obtain rfl := List.mem_singleton.mp taken
          exact others a listed rfl
        · exact apart r' inside (List.mem_cons_of_mem _ listed)
      have two := @ih (rewriteRestreamer cookie chan h inputs).1
        (rewriteRestreamer cookie chan h inputs).2 (by rw [name]; exact different)
        (by rw [names']; exact names) away
      refine forall₂_trans ?_ one two
      intro r r' r'' moved later
      exact moved.cons name others (fun a other => rewriteRestreamer_memory inputs other) later

end rewriting

section killing

variable {cookie : ℤ} {h₀ h h' : Heap} {inputs : List Input}

private theorem copy_sourced (c : ChannelObject) :
    Sourced c.copy.channel ∧ c.copy.channel.numSrc = 1 ∧
      c.copy.channel.source = c.channel.source := by
  have copied : copyChannel c.channel = some c.copy.channel := (Option.some_get _).symm
  obtain ⟨sourced, single, source⟩ := sourced_channelNew copied
  refine ⟨sourced, single, source.trans ?_⟩
  obtain ⟨url, is⟩ := Option.isSome_iff_exists.mp c.source
  rw [is, Option.getD_some]

/-- What the killing loop makes of one input, from the heap `h` to the heap `h'`. -/
def Ended (cookie : ℤ) (h h' : Heap) (r r' : Input) : Prop :=
  r.cookie = cookie ∧ r' = r ∨
    r.cookie ≠ cookie ∧ r' = { r with channel := r'.channel, freechannel := true, dienow := true } ∧
      h.next ≤ r'.channel ∧ h'.memory r'.channel = (h.memory r.channel).copy

variable (cookie) in
private theorem ended_killRestreamers (h : Heap) (grown : h₀.next ≤ h.next)
    (same : ∀ a < h₀.next, h.memory a = h₀.memory a)
    (pointers : ∀ r ∈ inputs, r.channel < h₀.next) :
    (∀ a < h.next, (killRestreamers cookie h inputs).1.memory a = h.memory a) ∧
      List.Forall₂ (Ended cookie h₀ (killRestreamers cookie h inputs).1) inputs
        (killRestreamers cookie h inputs).2 ∧
      (∀ r' ∈ (killRestreamers cookie h inputs).2, r'.channel < h₀.next ∨ h.next ≤ r'.channel) ∧
      ∀ a, h.next ≤ a → ((killRestreamers cookie h inputs).2.map Input.channel).count a ≤ 1 := by
  induction inputs generalizing h with
  | nil =>
      exact ⟨fun _ _ => rfl, List.Forall₂.nil, List.forall_mem_nil _, by simp [killRestreamers]⟩
  | cons r rest ih =>
      rw [List.forall_mem_cons] at pointers
      rw [killRestreamers]
      by_cases mark : r.cookie = cookie
      · rw [if_neg (not_not.mpr mark)]
        obtain ⟨memory, ended, places, once⟩ := ih h grown same pointers.2
        refine ⟨memory, List.Forall₂.cons (Or.inl ⟨mark, rfl⟩) ended,
          List.forall_mem_cons.mpr ⟨Or.inl pointers.1, places⟩, ?_⟩
        intro a above
        have other : r.channel ≠ a := by
          have := pointers.1
          omega
        rw [List.map_cons, List.count_cons_of_ne other]
        exact once a above
      · rw [if_pos mark]
        dsimp only
        have address := h.alloc_address (h.memory r.channel).copy
        obtain ⟨memory, ended, places, once⟩ := ih (h.alloc (h.memory r.channel).copy).2
          (by rw [Heap.alloc_next]; omega)
          (fun a below => (h.alloc_others _ (by omega)).trans (same a below)) pointers.2
        rw [Heap.alloc_next] at memory places once
        refine ⟨?_, List.Forall₂.cons ?_ ended, List.forall_mem_cons.mpr ⟨Or.inr address.ge, ?_⟩,
          ?_⟩
        · intro a below
          exact (memory a (by omega)).trans (h.alloc_others _ below)
        · refine Or.inr ⟨mark, rfl, grown.trans_eq address.symm, ?_⟩
          dsimp only
          rw [address, memory h.next (Nat.lt_succ_self _), Heap.alloc_own, same _ pointers.1]
        · intro r' member
          have := places r' member
          omega
        · intro a above
          rw [List.map_cons, address]
          rcases eq_or_ne h.next a with rfl | later
          · rw [List.count_cons_self, List.count_eq_zero.mpr]
            intro member
            obtain ⟨r', inside, there⟩ := List.mem_map.mp member
            have := places r' inside
            omega
          · rw [List.count_cons_of_ne later]
            exact once a (by omega)

end killing

section load

variable {s : State} {loaded : List ChannelObject} {cookie : ℤ}

private theorem newChannels_memory (h : Heap) {k : ℕ} {c : ChannelObject}
    (found : loaded[k]? = some c) :
    (newChannels h loaded).1.memory (h.next + k) = c := by
  induction loaded generalizing h k with
  | nil => cases found
  | cons first rest ih =>
      rw [newChannels]
      dsimp only
      cases k with
      | zero =>
          obtain rfl := Option.some.inj found
          have kept := (newChannels_spec (h.alloc first).2 rest).2.2.1
          rw [Nat.add_zero, kept h.next (Nat.lt_succ_self _), Heap.alloc_own]
      | succ k =>
          have further : h.next + (k + 1) = (h.alloc first).2.next + k := by
            rw [Heap.alloc_next]
            omega
          rw [further]
          exact ih _ found

private theorem newChannels_place (h : Heap) {k : ℕ} {c : ChannelObject}
    (found : loaded[k]? = some c) :
    (newChannels h loaded).2[k]? = some (h.next + k) ∧
      (newChannels h loaded).1.name (h.next + k) = c.channel.name := by
  obtain ⟨-, addresses, -, -⟩ := newChannels_spec h loaded
  obtain ⟨inside, -⟩ := List.getElem?_eq_some_iff.mp found
  refine ⟨by rw [addresses, List.getElem?_range' inside, Nat.one_mul], ?_⟩
  rw [Heap.name, newChannels_memory h found]

private theorem newChannels_named (h : Heap) (names : (loaded.map fun c => c.channel.name).Nodup)
    {a k : ℕ} {c : ChannelObject} (taken : a ∈ (newChannels h loaded).2)
    (found : loaded[k]? = some c) (same : (newChannels h loaded).1.name a = c.channel.name) :
    a = h.next + k := by
  obtain ⟨-, -, -, named⟩ := newChannels_spec h loaded
  obtain ⟨at_k, name⟩ := newChannels_place h found
  exact List.inj_on_of_nodup_map (by rw [named]; exact names) taken (List.mem_of_getElem? at_k)
    (same.trans name.symm)

/-- What a reload has done after its two loops, with the heap and the inputs it goes through. -/
structure Stages (s : State) (loaded : List ChannelObject) (cookie : ℤ) (h : Heap)
    (rewritten : Heap × List Input) : Prop where
  next : rewritten.1.next = s.heap.next + loaded.length
  old : ∀ a < s.heap.next, h.memory a = s.heap.memory a
  moved : List.Forall₂ (Moved cookie h rewritten.1 (newChannels s.heap loaded).2) s.inputs
    rewritten.2
  below : ∀ r' ∈ rewritten.2, r'.channel < rewritten.1.next

private theorem stages (channels : (loaded.map fun c => c.channel.name).Nodup)
    (inputs : (s.inputs.map Input.name).Nodup)
    (pointers : ∀ r ∈ s.inputs, r.channel < s.heap.next) :
    Stages s loaded cookie (newChannels s.heap loaded).1
      (rewriteRestreamers cookie (newChannels s.heap loaded).2 (newChannels s.heap loaded).1
        s.inputs) := by
  obtain ⟨next, addresses, old, names⟩ := newChannels_spec s.heap loaded
  obtain ⟨next', -⟩ := Ownership.rewriteRestreamers_spec cookie (newChannels s.heap loaded).1
    (newChannels s.heap loaded).2 s.inputs inputs
  have moved := @moved_rewriteRestreamers cookie (newChannels s.heap loaded).1
    (newChannels s.heap loaded).2 s.inputs (by rw [names]; exact channels) inputs <| by
      intro r member listed
      rw [addresses, List.mem_range'_1] at listed
      have := pointers r member
      omega
  refine ⟨next'.trans next, old, moved, ?_⟩
  intro r' member
  obtain ⟨r, inside, one⟩ := Ownership.exists_left moved member
  rw [next', next]
  rcases one with ⟨a, taken, -, rfl, -⟩ | ⟨-, rfl, -⟩
  · rw [addresses, List.mem_range'_1] at taken
    exact taken.2
  · have := pointers r' inside
    omega

private theorem reconciled_of_taken {s' : State} {h h₂ : Heap} {a : ℕ} {r : Input}
    (channels : (loaded.map fun c => c.channel.name).Nodup)
    (sources : ∀ c ∈ loaded, Sourced c.channel) (new : h = (newChannels s.heap loaded).1)
    (listed : s'.channels = (newChannels s.heap loaded).2)
    (taken : a ∈ (newChannels s.heap loaded).2) (named : h.name a = r.name)
    (source : heldSource h r.channel = heldSource s.heap r.channel)
    (set : (h₂.memory a).channel =
      chansrcSet (h.memory a).channel (chosen (h.memory a).channel (heldSource h r.channel)))
    (kept : s'.heap.memory a = h₂.memory a) :
    Reconciled s s' loaded r
      (retarget cookie a (srcFound (h.memory a).channel (heldSource h r.channel)).isSome r) := by
  subst new
  refine ⟨rfl, ?_, ?_⟩
  · intro k c found same
    obtain rfl := newChannels_named s.heap channels taken found (named.trans same.symm)
    refine ⟨listed ▸ (newChannels_place s.heap found).1, ?_⟩
    show Served c.channel _ r _ (s'.heap.memory (s.heap.next + k)).channel
    rw [kept, set, newChannels_memory s.heap found, source]
    exact served_chosen (sources c (List.mem_of_getElem? found)) cookie _ r
  · intro absent
    exact absurd named ((Ownership.unnamed_iff s loaded r.name).mpr absent a taken)

private theorem reconciled_of_ended {s' : State} {r r' : Input}
    (unnamed : ∀ a ∈ (newChannels s.heap loaded).2,
      (newChannels s.heap loaded).1.name a ≠ r.name)
    (listed : s'.channels = (newChannels s.heap loaded).2)
    (shape : r' = { r with channel := r'.channel, freechannel := true, dienow := true })
    (low : s.heap.next + loaded.length ≤ r'.channel)
    (copied : s'.heap.memory r'.channel = (s.heap.memory r.channel).copy)
    (own : (s'.inputs.map Input.channel).count r'.channel = 1) :
    Reconciled s s' loaded r r' := by
  obtain ⟨sourced, single, source⟩ := copy_sourced (s.heap.memory r.channel)
  refine ⟨by rw [shape], ?_, ?_⟩
  · intro k c found same
    exact absurd same ((Ownership.unnamed_iff s loaded r.name).mp unnamed c
      (List.mem_of_getElem? found))
  · intro _
    refine ⟨by rw [shape], by rw [shape], ?_, own, ?_, ?_, ?_⟩
    · rw [listed, (newChannels_spec s.heap loaded).2.1, List.mem_range'_1]
      omega
    · rw [copied]
      exact sourced
    · rw [copied]
      exact single
    · rw [copied]
      exact source

/-- A reload with a mark that no input has: every input whose name is in the file goes over to the
channel of that name, with the source it has if it is one of the new ones, and otherwise so that
the reconnect that is asked for takes the first of them; every other input is to end, with a
channel of its own on the source it has. -/
theorem reconciled (s : State) (loaded : List ChannelObject) (cookie : ℤ)
    (channels : (loaded.map fun c => c.channel.name).Nodup)
    (sources : ∀ c ∈ loaded, Sourced c.channel)
    (inputs : (s.inputs.map Input.name).Nodup)
    (pointers : ∀ r ∈ s.inputs, r.channel < s.heap.next)
    (unmarked : ∀ r ∈ s.inputs, r.cookie ≠ cookie) :
    List.Forall₂ (Reconciled s (configLoadChannels s (some loaded) cookie) loaded) s.inputs
      (configLoadChannels s (some loaded) cookie).inputs := by
  have stages := @stages s loaded cookie channels inputs pointers
  generalize after : configLoadChannels s (some loaded) cookie = s'
  generalize rewritten : rewriteRestreamers cookie (newChannels s.heap loaded).2
    (newChannels s.heap loaded).1 s.inputs = moved at stages
  have reloaded : (⟨(killRestreamers cookie moved.1 moved.2).1, (newChannels s.heap loaded).2,
      (killRestreamers cookie moved.1 moved.2).2, s.freed ++ s.channels⟩ : State) = s' := by
    rw [← after, ← rewritten]
    rfl
  have listed : s'.channels = (newChannels s.heap loaded).2 := by rw [← reloaded]
  obtain ⟨memory, ended, -, once⟩ := ended_killRestreamers cookie moved.1 le_rfl
    (fun _ _ => rfl) stages.below
  rw [show (killRestreamers cookie moved.1 moved.2).1 = s'.heap by rw [← reloaded]] at memory ended
  rw [show (killRestreamers cookie moved.1 moved.2).2 = s'.inputs by rw [← reloaded]] at ended once
  have before := (List.forall₂_and_left _ _).mpr
    (⟨fun r member => ⟨pointers r member, unmarked r member⟩, stages.moved⟩ :
      (∀ r ∈ s.inputs, r.channel < s.heap.next ∧ r.cookie ≠ cookie) ∧ _)
  have later := List.Forall₂.flip ((List.forall₂_and_left _ _).mpr
    ⟨fun r' (member : r' ∈ s'.inputs) => member, List.Forall₂.flip ended⟩)
  refine forall₂_trans ?_ before later
  rintro r r' r'' ⟨⟨pointer, unmarked⟩, one⟩ ⟨member, two⟩
  have old := stages.old _ pointer
  rcases one with ⟨a, taken, named, rfl, set⟩ | ⟨unnamed, rfl, kept⟩
  · rcases two with ⟨-, rfl⟩ | ⟨other, -⟩
    · refine reconciled_of_taken channels sources rfl listed taken named ?_ set (memory a ?_)
      · rw [heldSource, old, heldSource]
      · rw [(newChannels_spec s.heap loaded).2.1, List.mem_range'_1] at taken
        exact taken.2.trans_eq stages.next.symm
    · exact absurd rfl other
  · rcases two with ⟨mark, -⟩ | ⟨-, shape, low, own⟩
    · exact absurd mark unmarked
    · refine reconciled_of_ended unnamed listed shape (stages.next ▸ low) ?_ ?_
      · rw [own, kept, old]
      · have present := List.count_pos_iff.mpr (List.mem_map_of_mem (f := Input.channel) member)
        have := once r''.channel low
        omega

end load

/-- One channel is served, from its only source. -/
def running : State :=
  reloadAfter (fun _ => Ownership.sampleObject)
    [.load (some [Ownership.sampleObject]) 1, .spawn]

/-- The same channel with another source before the one it had. -/
def moreSources : ChannelObject where
  channel := chansrcAdd
    { (sampleChannel 1 0) with
      sources := fun j => if j = 0 then some "udp://239.0.0.2:5000/" else none
      source := some "udp://239.0.0.2:5000/" } "udp://239.0.0.1:5000/"
  index := by decide
  source := by decide

theorem reconciled_running :
    List.Forall₂ (Reconciled running (configLoadChannels running (some [moreSources]) 2)
      [moreSources]) running.inputs (configLoadChannels running (some [moreSources]) 2).inputs := by
  have sourced : Sourced moreSources.channel := by
    refine ⟨by decide, by decide, ?_, by decide, by decide⟩
    intro j
    rcases j with _ | _ | j
    · decide
    · decide
    · simp [moreSources, chansrcAdd, sampleChannel, maxChannelSources]
  refine reconciled running [moreSources] 2 (by decide) ?_ ?_ ?_ ?_
  · intro c member
    rw [List.mem_singleton.mp member]
    exact sourced
  · decide +kernel
  · decide +kernel
  · decide +kernel

end Mptsd.Reload.Reconcile
