/- Unit: Mptsd/Epg/Ownership
   source: src/config.c (config_load_epg_entry, config_channel_init_epg, config_load_epg,
   config_reset_channels_epg, config_free), src/data.c (epg_new, epg_free, channel_free_epg)
   digest: The entries and the tables of the programme guide as objects that are allocated and
   freed. -/

import Mptsd.Lib.Objects
import Mptsd.Epg.Versions

set_option autoImplicit false
set_option relaxedAutoImplicit false

namespace Mptsd.Epg.Ownership

open Mptsd.Ini
open Mptsd.Epg.Model
open Mptsd.Epg.Versions (Poll Guide guideAfter)
open Mptsd.Lib.Objects (Pool)

/-- The objects that `epg_new` and `ts_eit_alloc_init_pf` have made. -/
structure Memory where
  entries : Pool EpgEntry
  tables : Pool EpgTable

/-- The part of `CHANNEL` the guide is about, with its pointers. -/
structure EpgPointers where
  id : String
  serviceId : ℤ
  epgVersion : ℕ
  epgNow : Option ℕ
  epgNext : Option ℕ
  eitNow : Option ℕ
  eitNext : Option ℕ

variable (dvb : DvbStrings)

/-- `config_load_epg_entry`, with the object it makes. -/
def loadEpgEntry (m : Memory) (ini : Values) (entry channel : String) : Option ℕ × Memory :=
  match configLoadEpgEntry dvb ini entry channel with
  | none => (none, m)
  | some e =>
      let made := m.entries.alloc e
      (some made.1, { m with entries := made.2 })

/-- `channel_free_epg`. -/
def freeEpg (m : Memory) (c : EpgPointers) : Memory × EpgPointers :=
  ({ entries := (m.entries.free c.epgNow).free c.epgNext
     tables := (m.tables.free c.eitNow).free c.eitNext },
    { c with
      epgNow := none
      epgNext := none
      eitNow := none
      eitNext := none })

/-- A table that is made of an entry. -/
def eitTable (transportStreamId networkId : ℤ) (m : Memory) (c : EpgPointers) (sectionNumber : ℕ)
    (event : Option ℕ) : EpgTable where
  serviceId := c.serviceId
  transportStreamId
  networkId
  sectionNumber
  version := (c.epgVersion + 1) % 32
  event := m.entries.read event

/-- The part of `config_channel_init_epg` for entries that have changed. -/
def renewEpg (transportStreamId networkId : ℤ) (m : Memory) (c : EpgPointers)
    (now next : Option ℕ) : Memory × EpgPointers :=
  let eitNow := m.tables.alloc (eitTable transportStreamId networkId m c 0 now)
  let eitNext := eitNow.2.alloc (eitTable transportStreamId networkId m c 1 next)
  let freed := freeEpg { m with tables := eitNext.2 } c
  let c := { freed.2 with epgVersion := (c.epgVersion + 1) % 32, epgNow := now, epgNext := next }
  if now.isSome || next.isSome then
    (freed.1, { c with eitNow := some eitNow.1, eitNext := some eitNext.1 })
  else
    ({ freed.1 with tables := (freed.1.tables.free (some eitNow.1)).free (some eitNext.1) }, c)

/-- `config_channel_init_epg`. When nothing has changed it returns, and nobody has the new
entries. -/
def initEpg (transportStreamId networkId : ℤ) (m : Memory) (c : EpgPointers)
    (now next : Option ℕ) : Memory × EpgPointers :=
  if ¬ epgChanged (m.entries.read now) (m.entries.read c.epgNow) ∧
      ¬ epgChanged (m.entries.read next) (m.entries.read c.epgNext) then (m, c)
  else renewEpg transportStreamId networkId m c now next

/-- The body of the loop of `config_load_epg`. -/
def loadEpg (transportStreamId networkId : ℤ) (ini : Values) (m : Memory) (c : EpgPointers) :
    Memory × EpgPointers :=
  let enow := loadEpgEntry dvb m ini "now" c.id
  let enext := loadEpgEntry dvb enow.2 ini "next" c.id
  initEpg transportStreamId networkId enext.2 c enow.1 enext.1

/-- A loop over the channels. -/
def eachChannel (f : Memory → EpgPointers → Memory × EpgPointers) (m : Memory) :
    List EpgPointers → Memory × List EpgPointers
  | [] => (m, [])
  | c :: rest =>
      let one := f m c
      let others := eachChannel f one.1 rest
      (others.1, one.2 :: others.2)

structure State where
  transportStreamId : ℤ
  networkId : ℤ
  epgConfMtime : ℕ
  memory : Memory
  channels : List EpgPointers

/-- `config_reset_channels_epg`. -/
def State.reset (s : State) : State :=
  let freed := eachChannel freeEpg s.memory s.channels
  { s with memory := freed.1, channels := freed.2, epgConfMtime := 0 }

/-- `config_load_epg`. -/
def State.poll (s : State) (st : Poll) : State :=
  match st with
  | none => s.reset
  | some (mtime, ini) =>
      if mtime > s.epgConfMtime then
        let s := { s with epgConfMtime := mtime }
        match ini with
        | none => s.reset
        | some ini =>
            let loaded := eachChannel (loadEpg dvb s.transportStreamId s.networkId ini) s.memory
              s.channels
            { s with memory := loaded.1, channels := loaded.2 }
      else s

/-- Channels as `channel_new` leaves them. -/
def State.start (transportStreamId networkId : ℤ) (channels : List (String × ℤ)) : State where
  transportStreamId
  networkId
  epgConfMtime := 0
  memory := ⟨Pool.empty, Pool.empty⟩
  channels := channels.map fun c => ⟨c.1, c.2, 0, none, none, none, none⟩

def stateAfter (transportStreamId networkId : ℤ) (channels : List (String × ℤ))
    (polls : List Poll) : State :=
  polls.foldl (State.poll dvb) (State.start transportStreamId networkId channels)

/-- `channel_free`, which `config_free` calls for every channel. -/
def State.free (s : State) : Memory := (eachChannel freeEpg s.memory s.channels).1

/-- The channel with what its pointers refer to. -/
def EpgPointers.view (m : Memory) (c : EpgPointers) : EpgChannel where
  id := c.id
  serviceId := c.serviceId
  epgVersion := c.epgVersion
  epgNow := m.entries.read c.epgNow
  epgNext := m.entries.read c.epgNext
  eitNow := m.tables.read c.eitNow
  eitNext := m.tables.read c.eitNext

def State.view (s : State) : EpgConf where
  transportStreamId := s.transportStreamId
  networkId := s.networkId
  epgConfMtime := s.epgConfMtime
  channels := s.channels.map (EpgPointers.view s.memory)

def EpgPointers.entries (c : EpgPointers) : List ℕ := c.epgNow.toList ++ c.epgNext.toList

def EpgPointers.tables (c : EpgPointers) : List ℕ := c.eitNow.toList ++ c.eitNext.toList

/-- How many entries a load of a channel loses: those of a channel that has not changed. -/
def lostEntries (c : EpgChannel) (now next : Option EpgEntry) : ℕ :=
  if now = c.epgNow ∧ next = c.epgNext then now.toList.length + next.toList.length else 0

/-- How many a poll loses. -/
def lostPoll (conf : EpgConf) (st : Poll) : ℕ :=
  match st with
  | some (mtime, some ini) =>
      if mtime > conf.epgConfMtime then
        (conf.channels.map fun c => lostEntries c (configLoadEpgEntry dvb ini "now" c.id)
          (configLoadEpgEntry dvb ini "next" c.id)).sum
      else 0
  | _ => 0

/-- How many a history of polls loses. -/
def lostPolls (conf : EpgConf) : List Poll → ℕ
  | [] => 0
  | st :: rest => lostPoll dvb conf st + lostPolls (configLoadEpg dvb conf st).2 rest

/-- The objects of the entries and of the tables are owned once, or were freed once. -/
structure Owned (m : Memory) (entries tables : List ℕ) : Prop where
  entries : m.entries.Kept entries
  tables : m.tables.Kept tables

/-- No object goes away. -/
structure Memory.Grows (m m' : Memory) : Prop where
  entries : m.entries.Grows m'.entries
  tables : m.tables.Grows m'.tables

section memory

variable {m m' : Memory} {c : EpgPointers} {es es' ts ts' : List ℕ}

private theorem Memory.Grows.trans {m'' : Memory} (first : m.Grows m') (second : m'.Grows m'') :
    m.Grows m'' :=
  ⟨first.entries.trans second.entries, first.tables.trans second.tables⟩

private theorem Owned.congr (h : Owned m es ts) (entries : es'.Perm es) (tables : ts'.Perm ts) :
    Owned m es' ts' :=
  ⟨h.entries.congr entries, h.tables.congr tables⟩

private theorem Owned.view_grown (h : Owned m es ts) (entries : ∀ i ∈ c.entries, i ∈ es)
    (tables : ∀ i ∈ c.tables, i ∈ ts) (grown : m.Grows m') : c.view m' = c.view m := by
  have now := h.entries.read_grown (a := c.epgNow) (fun i member => entries i
    (List.mem_append_left _ (Option.mem_toList.mpr member))) grown.entries
  have next := h.entries.read_grown (a := c.epgNext) (fun i member => entries i
    (List.mem_append_right _ (Option.mem_toList.mpr member))) grown.entries
  have tableNow := h.tables.read_grown (a := c.eitNow) (fun i member => tables i
    (List.mem_append_left _ (Option.mem_toList.mpr member))) grown.tables
  have tableNext := h.tables.read_grown (a := c.eitNext) (fun i member => tables i
    (List.mem_append_right _ (Option.mem_toList.mpr member))) grown.tables
  rw [EpgPointers.view, EpgPointers.view, now, next, tableNow, tableNext]

/-- What `f` does to a channel: to its contents, to those who own its objects, and how many entries
it loses. -/
def Turns (f : Memory → EpgPointers → Memory × EpgPointers) (g : EpgChannel → EpgChannel)
    (losses : EpgChannel → ℕ) : Prop :=
  ∀ m c es ts, Owned m (c.entries ++ es) (c.tables ++ ts) →
    ∃ lost, lost.length = losses (c.view m) ∧
      Owned (f m c).1 ((f m c).2.entries ++ (lost ++ es)) ((f m c).2.tables ++ ts) ∧
      (f m c).2.view (f m c).1 = g (c.view m) ∧ m.Grows (f m c).1

private theorem eachChannel_spec {f : Memory → EpgPointers → Memory × EpgPointers}
    {g : EpgChannel → EpgChannel} {losses : EpgChannel → ℕ} (turns : Turns f g losses)
    (channels : List EpgPointers) (m : Memory) (es ts : List ℕ)
    (owned : Owned m (channels.flatMap EpgPointers.entries ++ es)
      (channels.flatMap EpgPointers.tables ++ ts)) :
    ∃ lost, lost.length = (channels.map fun c => losses (c.view m)).sum ∧
      Owned (eachChannel f m channels).1
        ((eachChannel f m channels).2.flatMap EpgPointers.entries ++ (lost ++ es))
        ((eachChannel f m channels).2.flatMap EpgPointers.tables ++ ts) ∧
      (eachChannel f m channels).2.map (EpgPointers.view (eachChannel f m channels).1) =
        channels.map (fun c => g (c.view m)) ∧
      m.Grows (eachChannel f m channels).1 := by
  induction channels generalizing m es ts with
  | nil => exact ⟨[], rfl, owned, rfl, ⟨Pool.Grows.refl _, Pool.Grows.refl _⟩⟩
  | cons c rest ih =>
      rw [List.flatMap_cons, List.flatMap_cons, List.append_assoc, List.append_assoc] at owned
      obtain ⟨lost, length, owned', view, grown⟩ := turns m c _ _ owned
      rw [eachChannel]
      generalize f m c = one at owned' view grown
      obtain ⟨m', c'⟩ := one
      dsimp only at owned' view grown ⊢
      have others : Owned m' (rest.flatMap EpgPointers.entries ++ (c'.entries ++ (lost ++ es)))
          (rest.flatMap EpgPointers.tables ++ (c'.tables ++ ts)) := by
        refine owned'.congr ?_ ?_
        · exact List.perm_iff_count.mpr fun a => by simp only [List.count_append]; omega
        · exact List.perm_iff_count.mpr fun a => by simp only [List.count_append]; omega
      obtain ⟨more, length', owned'', views, grown'⟩ := ih m' _ _ others
      have same : ∀ r ∈ rest, r.view m' = r.view m := by
        intro r member
        refine owned.view_grown (fun i inside => ?_) (fun i inside => ?_) grown
        · exact List.mem_append_right _ (List.mem_append_left _
            (List.mem_flatMap.mpr ⟨r, member, inside⟩))
        · exact List.mem_append_right _ (List.mem_append_left _
            (List.mem_flatMap.mpr ⟨r, member, inside⟩))
      have kept : c'.view (eachChannel f m' rest).1 = c'.view m' :=
        owned'.view_grown (fun i inside => List.mem_append_left _ inside)
          (fun i inside => List.mem_append_left _ inside) grown'
      refine ⟨lost ++ more, ?_, ?_, ?_, grown.trans grown'⟩
      · rw [List.length_append, length, length', List.map_cons, List.sum_cons]
        rw [List.map_congr_left fun r member => congrArg losses (same r member)]
      · refine owned''.congr ?_ ?_
        · exact List.perm_iff_count.mpr fun a => by
            simp only [List.flatMap_cons, List.count_append]; omega
        · exact List.perm_iff_count.mpr fun a => by
            simp only [List.flatMap_cons, List.count_append]; omega
      · rw [List.map_cons, List.map_cons, kept, view, views]
        rw [List.map_congr_left fun r member => congrArg g (same r member)]

private theorem turns_freeEpg : Turns freeEpg channelFreeEpg fun _ => 0 := by
  intro m c es ts owned
  refine ⟨[], rfl, ⟨?_, ?_⟩, rfl, ⟨?_, ?_⟩⟩
  · have entries := owned.entries
    rw [EpgPointers.entries, List.append_assoc] at entries
    exact entries.free.free
  · have tables := owned.tables
    rw [EpgPointers.tables, List.append_assoc] at tables
    exact tables.free.free
  · exact (Pool.grows_free _ _).trans (Pool.grows_free _ _)
  · exact (Pool.grows_free _ _).trans (Pool.grows_free _ _)

private theorem loadEpgEntry_spec (owned : Owned m es ts) (ini : Values) (entry channel : String) :
    Owned (loadEpgEntry dvb m ini entry channel).2
        ((loadEpgEntry dvb m ini entry channel).1.toList ++ es) ts ∧
      (loadEpgEntry dvb m ini entry channel).2.entries.read
          (loadEpgEntry dvb m ini entry channel).1 = configLoadEpgEntry dvb ini entry channel ∧
      m.Grows (loadEpgEntry dvb m ini entry channel).2 := by
  rw [loadEpgEntry]
  cases configLoadEpgEntry dvb ini entry channel with
  | none => exact ⟨owned, rfl, ⟨Pool.Grows.refl _, Pool.Grows.refl _⟩⟩
  | some e =>
      exact ⟨⟨owned.entries.alloc e, owned.tables⟩, Pool.read_alloc _ _,
        ⟨Pool.grows_alloc _ _, Pool.Grows.refl _⟩⟩

private theorem renewEpg_spec (transportStreamId networkId : ℤ) {now next : Option ℕ}
    (owned : Owned m (now.toList ++ (next.toList ++ (c.entries ++ es))) (c.tables ++ ts))
    {m' : Memory} {c' : EpgPointers}
    (renewed : renewEpg transportStreamId networkId m c now next = (m', c')) :
    Owned m' (c'.entries ++ es) (c'.tables ++ ts) ∧ m.Grows m' ∧
      c'.view m' =
        let present := (m.entries.read now).isSome || (m.entries.read next).isSome
        { id := c.id
          serviceId := c.serviceId
          epgVersion := (c.epgVersion + 1) % 32
          epgNow := m.entries.read now
          epgNext := m.entries.read next
          eitNow :=
            if present then some (eitTable transportStreamId networkId m c 0 now) else none
          eitNext :=
            if present then some (eitTable transportStreamId networkId m c 1 next) else none } := by
  have ownNow : ∀ i ∈ now, i ∈ now.toList ++ (next.toList ++ (c.entries ++ es)) :=
    fun i member => List.mem_append_left _ (Option.mem_toList.mpr member)
  have ownNext : ∀ i ∈ next, i ∈ now.toList ++ (next.toList ++ (c.entries ++ es)) :=
    fun i member => List.mem_append_right _ (List.mem_append_left _ (Option.mem_toList.mpr member))
  have present : (now.isSome || next.isSome) =
      ((m.entries.read now).isSome || (m.entries.read next).isSome) := by
    rw [owned.entries.isSome_read ownNow, owned.entries.isSome_read ownNext]
  rw [renewEpg] at renewed
  generalize eitTable transportStreamId networkId m c 0 now = tableNow at renewed ⊢
  generalize eitTable transportStreamId networkId m c 1 next = tableNext at renewed ⊢
  have one := owned.tables.alloc tableNow
  have two := one.alloc tableNext
  have readNow : ((m.tables.alloc tableNow).2.alloc tableNext).2.read
      (some (m.tables.alloc tableNow).1) = some tableNow := by
    rw [one.read_grown (by simp) (Pool.grows_alloc _ _)]
    exact Pool.read_alloc _ _
  have readNext := Pool.read_alloc (m.tables.alloc tableNow).2 tableNext
  have grown : m.tables.Grows ((m.tables.alloc tableNow).2.alloc tableNext).2 :=
    (Pool.grows_alloc _ _).trans (Pool.grows_alloc _ _)
  generalize (m.tables.alloc tableNow).2.alloc tableNext = madeNext at *
  generalize m.tables.alloc tableNow = madeNow at *
  -- the old entries and tables of the channel are freed
  obtain ⟨lost, nothing, freed, -, wider⟩ := turns_freeEpg { m with tables := madeNext.2 } c
    (now.toList ++ (next.toList ++ es)) (madeNow.1 :: madeNext.1 :: ts)
    ⟨owned.entries.congr (List.perm_iff_count.mpr fun a => by
        simp only [List.count_append]; omega),
      two.congr (List.perm_iff_count.mpr fun a => by
        simp only [List.count_append, List.count_cons]; omega)⟩
  obtain rfl := List.length_eq_zero_iff.mp nothing
  have wide : m.Grows (freeEpg { m with tables := madeNext.2 } c).1 :=
    ⟨wider.entries, grown.trans wider.tables⟩
  by_cases shown : (now.isSome || next.isSome) = true
  · rw [if_pos shown] at renewed
    obtain ⟨rfl, rfl⟩ := Prod.mk.inj renewed
    refine ⟨freed.congr (List.Perm.of_eq (List.append_assoc _ _ _)) (List.Perm.refl _), wide, ?_⟩
    · dsimp only
      rw [if_pos (present ▸ shown), if_pos (present ▸ shown), ← readNow, ← readNext]
      rfl
  · rw [if_neg shown] at renewed
    obtain ⟨rfl, rfl⟩ := Prod.mk.inj renewed
    obtain ⟨rfl, rfl⟩ : now = none ∧ next = none := by simpa using shown
    refine ⟨⟨freed.entries, freed.tables.free.free⟩, ⟨wide.entries, ?_⟩, rfl⟩
    exact wide.tables.trans ((Pool.grows_free _ _).trans (Pool.grows_free _ _))

private theorem initEpg_spec (conf : EpgConf) {now next : Option ℕ}
    (owned : Owned m (now.toList ++ (next.toList ++ (c.entries ++ es))) (c.tables ++ ts)) :
    ∃ lost, lost.length =
        lostEntries (c.view m) (m.entries.read now) (m.entries.read next) ∧
      Owned (initEpg conf.transportStreamId conf.networkId m c now next).1
        ((initEpg conf.transportStreamId conf.networkId m c now next).2.entries ++ (lost ++ es))
        ((initEpg conf.transportStreamId conf.networkId m c now next).2.tables ++ ts) ∧
      (initEpg conf.transportStreamId conf.networkId m c now next).2.view
          (initEpg conf.transportStreamId conf.networkId m c now next).1 =
        configChannelInitEpg conf (c.view m) (m.entries.read now) (m.entries.read next) ∧
      m.Grows (initEpg conf.transportStreamId conf.networkId m c now next).1 := by
  have ownNow : ∀ i ∈ now, i ∈ now.toList ++ (next.toList ++ (c.entries ++ es)) :=
    fun i member => List.mem_append_left _ (Option.mem_toList.mpr member)
  have ownNext : ∀ i ∈ next, i ∈ now.toList ++ (next.toList ++ (c.entries ++ es)) :=
    fun i member => List.mem_append_right _ (List.mem_append_left _ (Option.mem_toList.mpr member))
  have same : (¬ epgChanged (m.entries.read now) (c.view m).epgNow ∧
      ¬ epgChanged (m.entries.read next) (c.view m).epgNext) ↔
      m.entries.read now = (c.view m).epgNow ∧ m.entries.read next = (c.view m).epgNext := by
    simp only [Bool.not_eq_true, epgChanged_eq_false]
  by_cases unchanged : m.entries.read now = (c.view m).epgNow ∧
      m.entries.read next = (c.view m).epgNext
  · have stays : initEpg conf.transportStreamId conf.networkId m c now next = (m, c) :=
      if_pos (same.mpr unchanged)
    have kept : configChannelInitEpg conf (c.view m) (m.entries.read now) (m.entries.read next) =
        c.view m := if_pos (same.mpr unchanged)
    rw [stays, kept, lostEntries, if_pos unchanged]
    refine ⟨now.toList ++ next.toList, ?_, owned.congr ?_ (List.Perm.refl _), rfl,
      ⟨Pool.Grows.refl _, Pool.Grows.refl _⟩⟩
    · rw [List.length_append, owned.entries.length_read ownNow, owned.entries.length_read ownNext]
    · exact List.perm_iff_count.mpr fun a => by simp only [List.count_append]; omega
  · have renews : initEpg conf.transportStreamId conf.networkId m c now next =
      renewEpg conf.transportStreamId conf.networkId m c now next :=
      if_neg (mt same.mp unchanged)
    rw [renews, lostEntries, if_neg unchanged, configChannelInitEpg,
      if_neg (mt same.mp unchanged)]
    obtain ⟨owned', grown, view⟩ := renewEpg_spec conf.transportStreamId conf.networkId owned rfl
    exact ⟨[], rfl, owned', view, grown⟩

private theorem turns_loadEpg (conf : EpgConf) (ini : Values) :
    Turns (loadEpg dvb conf.transportStreamId conf.networkId ini)
      (fun c => configChannelInitEpg conf c (configLoadEpgEntry dvb ini "now" c.id)
        (configLoadEpgEntry dvb ini "next" c.id))
      fun c => lostEntries c (configLoadEpgEntry dvb ini "now" c.id)
        (configLoadEpgEntry dvb ini "next" c.id) := by
  intro m c es ts owned
  rw [loadEpg]
  obtain ⟨owned₁, read₁, grown₁⟩ := loadEpgEntry_spec dvb owned ini "now" c.id
  generalize loadEpgEntry dvb m ini "now" c.id = enow at owned₁ read₁ grown₁
  obtain ⟨now, m₁⟩ := enow
  obtain ⟨owned₂, read₂, grown₂⟩ := loadEpgEntry_spec dvb owned₁ ini "next" c.id
  dsimp only at owned₂ read₂ grown₂ read₁ grown₁ ⊢
  generalize loadEpgEntry dvb m₁ ini "next" c.id = enext at owned₂ read₂ grown₂
  obtain ⟨next, m₂⟩ := enext
  dsimp only at owned₂ read₂ grown₂ ⊢
  have view : c.view m₂ = c.view m :=
    owned.view_grown (fun i member => List.mem_append_left _ member)
      (fun i member => List.mem_append_left _ member) (grown₁.trans grown₂)
  have readNow : m₂.entries.read now = configLoadEpgEntry dvb ini "now" c.id := by
    rw [← read₁]
    exact owned₁.entries.read_grown
      (fun i member => List.mem_append_left _ (Option.mem_toList.mpr member)) grown₂.entries
  have all : Owned m₂ (now.toList ++ (next.toList ++ (c.entries ++ es))) (c.tables ++ ts) :=
    owned₂.congr (List.perm_iff_count.mpr fun a => by simp only [List.count_append]; omega)
      (List.Perm.refl _)
  obtain ⟨lost, length, owned', view', grown'⟩ := initEpg_spec conf all
  rw [view, readNow, read₂] at length view'
  exact ⟨lost, length, owned', view', (grown₁.trans grown₂).trans grown'⟩

end memory

section polls

variable {s : State} {lost : List ℕ}

/-- The entries and tables of the channels are theirs alone, and apart from them only the lost
entries have not been freed. -/
def Accounted (s : State) (lost : List ℕ) : Prop :=
  Owned s.memory (s.channels.flatMap EpgPointers.entries ++ lost)
    (s.channels.flatMap EpgPointers.tables)

private theorem eachChannel_owned {f : Memory → EpgPointers → Memory × EpgPointers}
    {g : EpgChannel → EpgChannel} {losses : EpgChannel → ℕ} (turns : Turns f g losses)
    (accounted : Accounted s lost) :
    ∃ more, more.length = (s.channels.map fun c => losses (c.view s.memory)).sum ∧
      Owned (eachChannel f s.memory s.channels).1
        ((eachChannel f s.memory s.channels).2.flatMap EpgPointers.entries ++ (more ++ lost))
        ((eachChannel f s.memory s.channels).2.flatMap EpgPointers.tables) ∧
      (eachChannel f s.memory s.channels).2.map
          (EpgPointers.view (eachChannel f s.memory s.channels).1) =
        s.view.channels.map g := by
  rw [Accounted, ← List.append_nil (List.flatMap EpgPointers.tables _)] at accounted
  obtain ⟨more, length, owned, views, -⟩ := eachChannel_spec turns _ _ _ _ accounted
  rw [List.append_nil] at owned
  refine ⟨more, length, owned, ?_⟩
  rw [views, State.view, List.map_map]
  rfl

private theorem accounted_reset (accounted : Accounted s lost) :
    Accounted s.reset lost ∧ s.reset.view = configResetChannelsEpg s.view := by
  obtain ⟨more, length, owned, views⟩ := eachChannel_owned turns_freeEpg accounted
  rw [List.map_const', List.sum_replicate, smul_zero] at length
  obtain rfl := List.length_eq_zero_iff.mp length
  refine ⟨owned, ?_⟩
  rw [State.view, State.reset, configResetChannelsEpg]
  dsimp only
  rw [views]
  rfl

private theorem accounted_poll (accounted : Accounted s lost) (st : Poll) :
    (∃ more, more.length = lostPoll dvb s.view st ∧ Accounted (s.poll dvb st) (more ++ lost)) ∧
      (s.poll dvb st).view = (configLoadEpg dvb s.view st).2 := by
  have resets : ∀ mtime, Accounted { s with epgConfMtime := mtime } lost := fun _ => accounted
  rcases st with _ | ⟨mtime, ini⟩
  · obtain ⟨after, view⟩ := accounted_reset accounted
    exact ⟨⟨[], rfl, after⟩, view⟩
  · rw [State.poll, configLoadEpg]
    by_cases newer : mtime > s.epgConfMtime
    · have newer' : mtime > s.view.epgConfMtime := newer
      cases ini with
      | none =>
          obtain ⟨after, view⟩ := accounted_reset (resets mtime)
          simp only [if_pos newer, if_pos newer']
          exact ⟨⟨[], rfl, after⟩, view⟩
      | some ini =>
          obtain ⟨more, length, owned, views⟩ := eachChannel_owned
            (turns_loadEpg dvb { s.view with epgConfMtime := mtime } ini) accounted
          simp only [if_pos newer, if_pos newer', lostPoll]
          refine ⟨⟨more, ?_, owned⟩, ?_⟩
          · rw [length, State.view, List.map_map]
            rfl
          · exact congrArg
              (fun channels => ({ s.view with epgConfMtime := mtime, channels } : EpgConf)) views
    · have older : ¬ mtime > s.view.epgConfMtime := newer
      simp only [if_neg newer, if_neg older]
      refine ⟨⟨[], ?_, accounted⟩, trivial⟩
      cases ini with
      | none => rfl
      | some ini => rw [lostPoll, if_neg older]; rfl

private theorem accounted_polls (accounted : Accounted s lost) (polls : List Poll) :
    (∃ more, more.length = lostPolls dvb s.view polls ∧
      Accounted (polls.foldl (State.poll dvb) s) (more ++ lost)) ∧
      (polls.foldl (State.poll dvb) s).view =
        polls.foldl (fun conf st => (configLoadEpg dvb conf st).2) s.view := by
  induction polls generalizing s lost with
  | nil => exact ⟨⟨[], rfl, accounted⟩, rfl⟩
  | cons st rest ih =>
      obtain ⟨⟨more, length, after⟩, view⟩ := accounted_poll dvb accounted st
      obtain ⟨⟨later, length', after'⟩, view'⟩ := ih after
      rw [List.foldl_cons, List.foldl_cons, ← view]
      refine ⟨⟨later ++ more, ?_, ?_⟩, view'⟩
      · rw [List.length_append, length, length', lostPolls, view]
        exact Nat.add_comm _ _
      · rw [List.append_assoc]
        exact after'

private theorem conf_polls (w : Guide) (polls : List Poll) :
    (polls.foldl (Guide.poll dvb) w).conf =
      polls.foldl (fun conf st => (configLoadEpg dvb conf st).2) w.conf := by
  induction polls generalizing w with
  | nil => rfl
  | cons st rest ih => exact ih (w.poll dvb st)

private theorem accounted_start (transportStreamId networkId : ℤ) (channels : List (String × ℤ)) :
    Accounted (State.start transportStreamId networkId channels) [] ∧
      (State.start transportStreamId networkId channels).view =
        (Guide.start transportStreamId networkId channels).conf := by
  have entries : (State.start transportStreamId networkId channels).channels.flatMap
      EpgPointers.entries = [] := by
    refine List.flatMap_eq_nil_iff.mpr fun c member => ?_
    obtain ⟨ch, -, rfl⟩ := List.mem_map.mp member
    rfl
  have tables : (State.start transportStreamId networkId channels).channels.flatMap
      EpgPointers.tables = [] := by
    refine List.flatMap_eq_nil_iff.mpr fun c member => ?_
    obtain ⟨ch, -, rfl⟩ := List.mem_map.mp member
    rfl
  refine ⟨?_, ?_⟩
  · rw [Accounted, entries, tables]
    exact ⟨Pool.kept_empty, Pool.kept_empty⟩
  · rw [State.view, State.start, Guide.start]
    dsimp only
    rw [List.map_map]
    rfl

private theorem freed_channels (m : Memory) (channels : List EpgPointers) :
    (eachChannel freeEpg m channels).2.flatMap EpgPointers.entries = [] ∧
      (eachChannel freeEpg m channels).2.flatMap EpgPointers.tables = [] := by
  induction channels generalizing m with
  | nil => exact ⟨rfl, rfl⟩
  | cons c rest ih => exact ih (freeEpg m c).1

private theorem owned_free (accounted : Accounted s lost) : Owned s.free lost [] := by
  obtain ⟨owned, -⟩ := accounted_reset accounted
  have owned' : Owned s.free ((eachChannel freeEpg s.memory s.channels).2.flatMap
      EpgPointers.entries ++ lost) ((eachChannel freeEpg s.memory s.channels).2.flatMap
      EpgPointers.tables) := owned
  rw [(freed_channels s.memory s.channels).1, (freed_channels s.memory s.channels).2] at owned'
  exact owned'

end polls

/-- After any history of polls the pointers of the channels refer to what the guide holds. Every
entry and every table belongs to one pointer or was freed once, except for the entries that were
read for a channel which had just these: nobody frees them, not even at the end. -/
theorem guide_memory (dvb : DvbStrings) (transportStreamId networkId : ℤ)
    (channels : List (String × ℤ)) (polls : List Poll) :
    let s := stateAfter dvb transportStreamId networkId channels polls
    s.view = (guideAfter dvb transportStreamId networkId channels polls).conf ∧
      ∃ lost, lost.length =
          lostPolls dvb (Guide.start transportStreamId networkId channels).conf polls ∧
        Accounted s lost ∧
        (lost ++ s.free.entries.freed).Perm (List.range s.free.entries.objects.length) ∧
        s.free.tables.freed.Perm (List.range s.free.tables.objects.length) := by
  obtain ⟨start, view⟩ := accounted_start transportStreamId networkId channels
  obtain ⟨⟨lost, length, accounted⟩, views⟩ := accounted_polls dvb start polls
  rw [List.append_nil] at accounted
  refine ⟨?_, lost, length.trans (by rw [view]), accounted, ?_⟩
  · rw [stateAfter, guideAfter, conf_polls, ← view]
    exact views
  · have owned := owned_free accounted
    exact ⟨owned.entries.perm, owned.tables.perm⟩

/-- The same guide in a file that was written twice. -/
example : lostPolls ⟨id, id⟩ (Guide.start 1 1 [("tv", 101)]).conf
    [some (1, some (Reload.eventFile "News")), some (2, some (Reload.eventFile "News"))] = 1 := by
  decide +kernel

end Mptsd.Epg.Ownership
