/- Unit: Mptsd/Reload/Load
   source: src/config.c (config_load_channels, the parse loop; is_valid_url), src/data.c
   (channel_new, chansrc_add)
   digest: The channels a configuration file describes, and when the loop that reads it gives
   exactly these. -/

import Mptsd.Ini
import Mptsd.Reload.Model

set_option autoImplicit false
set_option relaxedAutoImplicit false

namespace Mptsd.Reload.Load

open Mptsd.Channels
open Mptsd.Ini
open Mptsd.Reload.Model (ChannelObject)

/-- `^([a-z]+)://([^:/?]+):?([0-9]*)/?(.*)`: all that follows the first character of the host is
optional. -/
def isValidUrl (url : String) : Bool :=
  match url.toList.dropWhile Char.isLower with
  | ':' :: '/' :: '/' :: c :: _ =>
      url.toList.head?.any Char.isLower && c != ':' && c != '/' && c != '?'
  | _ => false

/-- `isspace`. -/
def isSpace (c : Char) : Bool := c = ' ' || (9 ≤ c.toNat && c.toNat ≤ 13)

/-- The number at the start of a text, of at most `width` digits. -/
def scanDigits (width : ℕ) (text : List Char) : Option (ℕ × List Char) :=
  match (text.take width).takeWhile Char.isDigit with
  | [] => none
  | digits => some (readDigits 10 0 digits, text.drop digits.length)

/-- The conversion `%02d` of `sscanf`: white space, a sign, digits, and no more than two characters
for sign and digits. -/
def scanInt (text : List Char) : Option (ℤ × List Char) :=
  match text.dropWhile isSpace with
  | '-' :: rest => (scanDigits 1 rest).map fun x => (-(x.1 : ℤ), x.2)
  | '+' :: rest => (scanDigits 1 rest).map fun x => ((x.1 : ℤ), x.2)
  | number => (scanDigits 2 number).map fun x => ((x.1 : ℤ), x.2)

/-- Any other character of the format stands for itself. -/
def scanChar (c : Char) : List Char → Option (List Char)
  | [] => none
  | x :: rest => if x = c then some rest else none

/-- `sscanf(worktime, "%02d:%02d-%02d:%02d", &sh, &sm, &eh, &em) == 4`, with the seconds that the
four numbers stand for. -/
def scanWorktime (text : List Char) : Option (ℤ × ℤ) := do
  let (sh, text) ← scanInt text
  let text ← scanChar ':' text
  let (sm, text) ← scanInt text
  let text ← scanChar '-' text
  let (eh, text) ← scanInt text
  let text ← scanChar ':' text
  let (em, _) ← scanInt text
  some (sh * 3600 + sm * 60, eh * 3600 + em * 60)

/-- A channel as the loop adds it to the list. -/
structure LoadedChannel where
  channel : Channel
  worktimeStart : ℤ
  worktimeEnd : ℤ

variable (ini : Values) (i : ℕ)

/-- `"Channel%d:..."`. -/
def key (name : String) : String := "Channel" ++ toString i ++ ":" ++ name

/-- Source number `j` of a section. The first one may be called `source`. -/
def sourceAt (j : ℕ) : Option String :=
  match iniGetString ini none (key i ("source" ++ toString j)) with
  | some source => some source
  | none => if j = 1 then iniGetString ini none (key i "source") else none

/-- The first source makes the channel, the others are added to it. -/
def addSource (id name : String) (channel : Option Channel) (source : String) : Option Channel :=
  match channel with
  | none =>
      channelNew (iniGetInt ini 0 (key i "service_id")) (iniGetBool ini 0 (key i "radio")) id name
        (iniGetInt ini 0 (key i "eit_mode")) source i (iniGetInt ini 0 (key i "lcn"))
        (iniGetBool ini 0 (key i "lcn_visible"))
  | some c => some (chansrcAdd c source)

/-- The loop over the sources. -/
def loadSources (id name : String) : Option Channel :=
  (List.range' 1 7).foldl (fun channel j =>
    match sourceAt ini i j with
    | none => channel
    | some source => if isValidUrl source then addSource ini i id name channel source else channel)
    none

/-- What a section does: the loop goes on with or without a channel, or it stores or reads through
a null pointer. -/
inductive Outcome
  | skipped
  | added (c : LoadedChannel)
  | nullChannel
  | nullNumber

/-- The end of a turn: the sources, and the worktime, which is stored in the channel. -/
def loadWorktime (id name : String) : Outcome :=
  let channel := loadSources ini i id name
  match (iniGetString ini none (key i "worktime")).bind (fun w => scanWorktime w.toList) with
  | some (worktimeStart, worktimeEnd) =>
      match channel with
      | none => .nullChannel
      | some channel => .added { channel, worktimeStart, worktimeEnd }
  | none =>
      match channel with
      | none => .skipped
      | some channel => .added { channel, worktimeStart := 0, worktimeEnd := 0 }

/-- One turn of the loop over the sections. -/
def loadChannel (ini : Dictionary) (i : ℕ) : Outcome :=
  if NamesSection ini (key i "service_id") then .nullNumber
  else if iniGetInt (valuesOf ini) 0 (key i "service_id") = 0 then .skipped
  else if NamesSection ini (key i "radio") ∨ NamesSection ini (key i "lcn") ∨
      NamesSection ini (key i "lcn_visible") then .nullNumber
  else
    match iniGetString (valuesOf ini) none (key i "id"),
        iniGetString (valuesOf ini) none (key i "name") with
    | some id, some name =>
        if NamesSection ini (key i "eit_mode") then .nullNumber
        else loadWorktime (valuesOf ini) i id name
    | _, _ => .skipped

/-- The loop over some sections, and the list of channels; `none` when it went through a null
pointer. -/
def loadSections (ini : Dictionary) : List ℕ → Option (List LoadedChannel)
  | [] => some []
  | i :: rest =>
      match loadChannel ini i with
      | .skipped => loadSections ini rest
      | .added c => (loadSections ini rest).map (c :: ·)
      | .nullChannel | .nullNumber => none

/-- What the loop reads from a file. -/
structure ChannelsFile where
  providerName : Option String
  transportStreamId : ℤ
  channels : List LoadedChannel

/-- `config_load_channels`, up to the end of the parsing. -/
def parseChannels (ini : Dictionary) : Option ChannelsFile :=
  if NamesSection ini "Global:transport_stream_id" then none
  else
    (loadSections ini (List.range' 1 31)).map fun channels =>
      { providerName := iniGetString (valuesOf ini) none "Global:provider_name"
        transportStreamId := iniGetInt (valuesOf ini) 0 "Global:transport_stream_id"
        channels }

/-- The sources of a section with an address that can be used. -/
def acceptedSources : List String :=
  (List.range' 1 7).filterMap fun j => (sourceAt ini i j).filter isValidUrl

/-- The section describes a channel, apart from its sources. -/
def Named : Prop :=
  iniGetInt ini 0 (key i "service_id") ≠ 0 ∧ (iniGetString ini none (key i "id")).isSome ∧
    (iniGetString ini none (key i "name")).isSome

instance : Decidable (Named ini i) := inferInstanceAs (Decidable (_ ∧ _ ∧ _))

/-- The number that two digits stand for. -/
def twoDigits (tens ones : Char) : ℤ := digitValue tens * 10 + digitValue ones

/-- The form `hh:mm-hh:mm`, with the seconds of both times. -/
def worktimeForm : List Char → Option (ℤ × ℤ)
  | [a, b, ':', c, d, '-', e, f, ':', g, h] =>
      if [a, b, c, d, e, f, g, h].all Char.isDigit then
        some (twoDigits a b * 3600 + twoDigits c d * 60, twoDigits e f * 3600 + twoDigits g h * 60)
      else none
  | _ => none

/-- The channel has the data of the section: the sources that were accepted, in their order, the
first of them as the current one, and the worktime exactly when it has its form. -/
structure AsConfigured (c : LoadedChannel) : Prop where
  index : c.channel.index = i
  serviceId : c.channel.serviceId = iniGetInt ini 0 (key i "service_id")
  id : iniGetString ini none (key i "id") = some c.channel.id
  name : iniGetString ini none (key i "name") = some c.channel.name
  sources : ∀ n, c.channel.sources n = (acceptedSources ini i)[n]?
  numSrc : c.channel.numSrc = (acceptedSources ini i).length
  source : c.channel.source = (acceptedSources ini i).head?
  currSrc : c.channel.currSrc = 0
  worktime : (c.worktimeStart, c.worktimeEnd) =
    ((iniGetString ini none (key i "worktime")).bind fun w => worktimeForm w.toList).getD (0, 0)

/-- A worktime that can be read belongs to a section with a source, and has its form, or it is that
of a channel without one. -/
def WorktimeClean : Prop :=
  Named ini i → ∀ w times, iniGetString ini none (key i "worktime") = some w →
    scanWorktime w.toList = some times →
    acceptedSources ini i ≠ [] ∧ ((worktimeForm w.toList).isSome ∨ times = (0, 0))

/-- No number that is asked for is the name of a section. -/
structure NumbersRead (ini : Dictionary) (i : ℕ) : Prop where
  serviceId : ¬ NamesSection ini (key i "service_id")
  early : iniGetInt (valuesOf ini) 0 (key i "service_id") ≠ 0 →
    ¬ (NamesSection ini (key i "radio") ∨ NamesSection ini (key i "lcn") ∨
      NamesSection ini (key i "lcn_visible"))
  eitMode : Named (valuesOf ini) i → ¬ NamesSection ini (key i "eit_mode")

def Clean (ini : Dictionary) (i : ℕ) : Prop := NumbersRead ini i ∧ WorktimeClean (valuesOf ini) i

section worktime

theorem toNat_of_isDigit {c : Char} (digit : c.isDigit = true) : 48 ≤ c.toNat ∧ c.toNat ≤ 57 := by
  simpa [Char.isDigit, UInt32.le_iff_toNat_le] using digit

theorem digitValue_lt {c : Char} (digit : c.isDigit = true) : digitValue c < 10 := by
  have := toNat_of_isDigit digit
  rw [digitValue, if_pos digit]
  omega

private theorem scanDigits_two {a b : Char} (tens : a.isDigit = true) (ones : b.isDigit = true)
    (rest : List Char) :
    scanDigits 2 (a :: b :: rest) = some (digitValue a * 10 + digitValue b, rest) := by
  have first := digitValue_lt tens
  have second := digitValue_lt ones
  simp [scanDigits, tens, ones, readDigits, first, second]

private theorem scanInt_two {a b : Char} (tens : a.isDigit = true) (ones : b.isDigit = true)
    (rest : List Char) : scanInt (a :: b :: rest) = some (twoDigits a b, rest) := by
  have bounds := toNat_of_isDigit tens
  have visible : isSpace a = false := by
    have other : a ≠ ' ' := by
      rintro rfl
      simp at bounds
    simp [isSpace, other]
    omega
  rw [scanInt]
  rw [List.dropWhile_cons_of_neg (by simp [visible])]
  split
  · simp_all
  · simp_all
  · rw [scanDigits_two tens ones]
    simp [twoDigits]

private theorem scanWorktime_of_form {text : List Char} {times : ℤ × ℤ}
    (form : worktimeForm text = some times) : scanWorktime text = some times := by
  unfold worktimeForm at form
  split at form
  · split at form
    · rename_i digits
      simp only [List.all_cons, List.all_nil, Bool.and_true, Bool.and_eq_true] at digits
      obtain ⟨a, b, c, d, e, f, g, h⟩ := digits
      rw [← form]
      simp [scanWorktime, scanInt_two, scanChar, a, b, c, d, e, f, g, h]
    · cases form
  · cases form

end worktime

/-- The channel that a section with accepted sources describes. -/
def describedChannel (id name : String) : Channel where
  index := i
  basePid := i * 32
  serviceId := iniGetInt ini 0 (key i "service_id")
  pmtPid := i * 32
  radio := iniGetBool ini 0 (key i "radio")
  lcn := iniGetInt ini 0 (key i "lcn")
  lcnVisible := iniGetBool ini 0 (key i "lcn_visible")
  id
  name
  eitMode := iniGetInt ini 0 (key i "eit_mode")
  source := (acceptedSources ini i).head?
  sources := fun n => (acceptedSources ini i)[n]?
  numSrc := (acceptedSources ini i).length
  currSrc := 0

section sources

private theorem foldl_chansrcAdd {base : Channel} (none : base.sources = fun _ => none)
    (start : base.numSrc = 0) (unset : base.source = .none) {l : List String}
    (room : l.length < maxChannelSources) :
    l.foldl chansrcAdd base =
      { base with
        sources := fun n => l[n]?
        source := l.head?
        numSrc := l.length } := by
  induction l using List.reverseRecOn with
  | nil =>
      cases base
      simp_all
  | append_singleton l s ih =>
      rw [List.length_append, List.length_singleton] at room
      have more : ¬ l.length ≥ maxChannelSources - 1 := by omega
      rw [List.foldl_append, ih (by omega), List.foldl_cons, List.foldl_nil, chansrcAdd]
      dsimp only
      rw [if_neg more]
      congr 1
      · cases l with
        | nil => rfl
        | cons x rest => rfl
      · ext1 n
        rcases Nat.lt_trichotomy n l.length with below | rfl | past
        · rw [Function.update_of_ne below.ne, List.getElem?_append_left below]
        · simp
        · rw [Function.update_of_ne past.ne', List.getElem?_eq_none (by omega),
            List.getElem?_eq_none (by simp; omega)]
      · simp

variable {ini i}

variable (ini i) in
private theorem length_acceptedSources : (acceptedSources ini i).length < maxChannelSources := by
  have le := List.length_filterMap_le (fun j => (sourceAt ini i j).filter isValidUrl)
    (List.range' 1 7)
  rw [acceptedSources, maxChannelSources]
  rw [List.length_range'] at le
  omega

private theorem loadSources_eq (id name : String) :
    loadSources ini i id name = (acceptedSources ini i).foldl (addSource ini i id name) none := by
  rw [loadSources, acceptedSources]
  rw [List.foldl_filterMap]
  congr 1
  ext1 channel
  ext1 j
  cases sourceAt ini i j with
  | none => rfl
  | some source =>
      cases valid : isValidUrl source with
      | false => simp [Option.filter, valid]
      | true => simp [Option.filter, valid]

variable (ini) in
private theorem loadSources_spec (inside : 1 ≤ i ∧ i < 32) (id name : String) :
    loadSources ini i id name =
      if acceptedSources ini i = [] then none else some (describedChannel ini i id name) := by
  have room := length_acceptedSources ini i
  rw [loadSources_eq, describedChannel]
  generalize acceptedSources ini i = accepted at room
  cases accepted with
  | nil => rfl
  | cons first rest =>
      have later : ∀ (l : List String) (c : Channel),
          l.foldl (addSource ini i id name) (some c) = some (l.foldl chansrcAdd c) := by
        intro l
        induction l with
        | nil => exact fun _ => rfl
        | cons s l ih => exact fun c => ih (chansrcAdd c s)
      have index : ¬ ((i : ℤ) ≤ 0 ∨ (i : ℤ) ≥ 256) := by omega
      rw [List.foldl_cons, addSource, channelNew, if_neg index, later, if_neg (by simp),
        ← List.foldl_cons, foldl_chansrcAdd rfl rfl rfl room]
      simp

end sources

section sections

variable {ini i}

private theorem asConfigured_iff {id name : String}
    (isId : iniGetString ini none (key i "id") = some id)
    (isName : iniGetString ini none (key i "name") = some name) (times : ℤ × ℤ) :
    AsConfigured ini i ⟨describedChannel ini i id name, times.1, times.2⟩ ↔
      times = ((iniGetString ini none (key i "worktime")).bind
        fun w => worktimeForm w.toList).getD (0, 0) :=
  ⟨fun h => h.worktime,
    fun same => ⟨rfl, rfl, isId, isName, fun _ => rfl, rfl, rfl, rfl, same⟩⟩

private theorem stored_iff {w : String} {times : ℤ × ℤ}
    (read : scanWorktime w.toList = some times) :
    times = (worktimeForm w.toList).getD (0, 0) ↔
      (worktimeForm w.toList).isSome ∨ times = (0, 0) := by
  cases form : worktimeForm w.toList with
  | none => simp
  | some times' =>
      have same := scanWorktime_of_form form
      rw [read] at same
      obtain rfl := Option.some.inj same
      simp

variable (ini) in
private theorem loadWorktime_eq (inside : 1 ≤ i ∧ i < 32) (id name : String) :
    loadWorktime ini i id name =
      match (iniGetString ini none (key i "worktime")).bind (fun w => scanWorktime w.toList) with
      | some times =>
          if acceptedSources ini i = [] then .nullChannel
          else .added ⟨describedChannel ini i id name, times.1, times.2⟩
      | none =>
          if acceptedSources ini i = [] then .skipped
          else .added ⟨describedChannel ini i id name, 0, 0⟩ := by
  have load := loadSources_spec ini inside id name
  rw [loadWorktime, load]
  generalize (iniGetString ini none (key i "worktime")).bind _ = read
  by_cases empty : acceptedSources ini i = []
  · rw [if_pos empty]
    cases read with
    | none => exact (if_pos empty).symm
    | some times => exact (if_pos empty).symm
  · rw [if_neg empty]
    cases read with
    | none => exact (if_neg empty).symm
    | some times => exact (if_neg empty).symm

private theorem loadWorktime_cases (inside : 1 ≤ i ∧ i < 32) (named : Named ini i)
    {id name : String}
    (isId : iniGetString ini none (key i "id") = some id)
    (isName : iniGetString ini none (key i "name") = some name) :
    (loadWorktime ini i id name = .nullChannel ∧ ¬ WorktimeClean ini i) ∨
      (loadWorktime ini i id name = .skipped ∧ acceptedSources ini i = [] ∧ WorktimeClean ini i) ∨
      ∃ c, loadWorktime ini i id name = .added c ∧ acceptedSources ini i ≠ [] ∧
        (AsConfigured ini i c ↔ WorktimeClean ini i) := by
  have load := loadWorktime_eq ini inside id name
  have clean_iff : WorktimeClean ini i ↔ ∀ w times,
      iniGetString ini none (key i "worktime") = some w → scanWorktime w.toList = some times →
      acceptedSources ini i ≠ [] ∧ ((worktimeForm w.toList).isSome ∨ times = (0, 0)) :=
    ⟨fun h => h named, fun h _ => h⟩
  cases read : (iniGetString ini none (key i "worktime")).bind (fun w => scanWorktime w.toList) with
  | none =>
      rw [read] at load
      have unread : ∀ w, iniGetString ini none (key i "worktime") = some w →
          scanWorktime w.toList = none := by
        intro w isWorktime
        rwa [isWorktime, Option.bind_some] at read
      have clean : WorktimeClean ini i := by
        rw [clean_iff]
        intro w times isWorktime some
        rw [unread w isWorktime] at some
        cases some
      by_cases empty : acceptedSources ini i = []
      · rw [if_pos empty] at load
        exact Or.inr (Or.inl ⟨load, empty, clean⟩)
      · rw [if_neg empty] at load
        refine Or.inr (Or.inr ⟨_, load, empty, iff_of_true ?_ clean⟩)
        apply (asConfigured_iff isId isName (0, 0)).mpr
        cases isWorktime : iniGetString ini none (key i "worktime") with
        | none => rfl
        | some w =>
            cases form : worktimeForm w.toList with
            | none => simp [form]
            | some times =>
                have scanned := scanWorktime_of_form form
                rw [unread w isWorktime] at scanned
                cases scanned
  | some times =>
      rw [read] at load
      dsimp only at load
      obtain ⟨w, isWorktime, scanned⟩ := Option.bind_eq_some_iff.mp read
      by_cases empty : acceptedSources ini i = []
      · rw [if_pos empty] at load
        refine Or.inl ⟨load, ?_⟩
        rw [clean_iff]
        intro h
        exact (h w times isWorktime scanned).1 empty
      · rw [if_neg empty] at load
        refine Or.inr (Or.inr ⟨_, load, empty, ?_⟩)
        rw [asConfigured_iff isId isName times, isWorktime, Option.bind_some,
          stored_iff scanned, clean_iff]
        constructor
        · intro stored w' times' isWorktime' scanned'
          obtain rfl : w = w' := Option.some.inj (isWorktime.symm.trans isWorktime')
          obtain rfl : times = times' := Option.some.inj (scanned.symm.trans scanned')
          exact ⟨empty, stored⟩
        · intro h
          exact (h w times isWorktime scanned).2

end sections

section dictionary

variable {ini : Dictionary} {i : ℕ}

private theorem loadChannel_named (numbers : NumbersRead ini i) (named : Named (valuesOf ini) i) :
    ∃ id name, iniGetString (valuesOf ini) none (key i "id") = some id ∧
      iniGetString (valuesOf ini) none (key i "name") = some name ∧
      loadChannel ini i = loadWorktime (valuesOf ini) i id name := by
  obtain ⟨service, hasId, hasName⟩ := id named
  obtain ⟨id, isId⟩ := Option.isSome_iff_exists.mp hasId
  obtain ⟨name, isName⟩ := Option.isSome_iff_exists.mp hasName
  refine ⟨id, name, isId, isName, ?_⟩
  rw [loadChannel]
  rw [if_neg numbers.serviceId, if_neg service, if_neg (numbers.early service), isId, isName]
  exact if_neg (numbers.eitMode named)

private theorem loadChannel_unnamed (numbers : NumbersRead ini i)
    (unnamed : ¬ Named (valuesOf ini) i) :
    loadChannel ini i = .skipped := by
  rw [loadChannel, if_neg numbers.serviceId]
  split
  · rfl
  · rename_i service
    rw [if_neg (numbers.early service)]
    split
    · rename_i id name isId isName
      exact absurd ⟨service, by simp [isId], by simp [isName]⟩ unnamed
    · rfl

private theorem loadChannel_of_not_numbersRead (unread : ¬ NumbersRead ini i) :
    loadChannel ini i = .nullNumber := by
  rw [loadChannel]
  by_cases serviceId : NamesSection ini (key i "service_id")
  · exact if_pos serviceId
  by_cases service : iniGetInt (valuesOf ini) 0 (key i "service_id") = 0
  · refine absurd ⟨serviceId, fun other => absurd service other, ?_⟩ unread
    exact fun named => absurd service named.1
  rw [if_neg serviceId, if_neg service]
  by_cases early : NamesSection ini (key i "radio") ∨ NamesSection ini (key i "lcn") ∨
      NamesSection ini (key i "lcn_visible")
  · exact if_pos early
  · have eitMode : Named (valuesOf ini) i ∧ NamesSection ini (key i "eit_mode") := by
      by_contra other
      exact unread ⟨serviceId, fun _ => early, fun named names => other ⟨named, names⟩⟩
    obtain ⟨⟨-, hasId, hasName⟩, names⟩ := eitMode
    obtain ⟨id, isId⟩ := Option.isSome_iff_exists.mp hasId
    obtain ⟨name, isName⟩ := Option.isSome_iff_exists.mp hasName
    rw [if_neg early, isId, isName]
    exact if_pos names

variable (ini) in
private theorem loadChannel_cases (inside : 1 ≤ i ∧ i < 32) :
    ((loadChannel ini i = .nullChannel ∨ loadChannel ini i = .nullNumber) ∧ ¬ Clean ini i) ∨
      (loadChannel ini i = .skipped ∧
        ¬ (Named (valuesOf ini) i ∧ acceptedSources (valuesOf ini) i ≠ []) ∧ Clean ini i) ∨
      ∃ c, loadChannel ini i = .added c ∧
        (Named (valuesOf ini) i ∧ acceptedSources (valuesOf ini) i ≠ []) ∧
        (AsConfigured (valuesOf ini) i c ↔ Clean ini i) := by
  by_cases numbers : NumbersRead ini i
  · have clean_iff : Clean ini i ↔ WorktimeClean (valuesOf ini) i := and_iff_right numbers
    rw [clean_iff]
    by_cases named : Named (valuesOf ini) i
    · obtain ⟨id, name, isId, isName, load⟩ := loadChannel_named numbers named
      rw [load]
      rcases loadWorktime_cases inside named isId isName with
        ⟨null, unclean⟩ | ⟨skipped, empty, clean⟩ | ⟨c, added, sources, same⟩
      · exact Or.inl ⟨Or.inl null, unclean⟩
      · exact Or.inr (Or.inl ⟨skipped, fun both => both.2 empty, clean⟩)
      · exact Or.inr (Or.inr ⟨c, added, ⟨named, sources⟩, same⟩)
    · exact Or.inr (Or.inl ⟨loadChannel_unnamed numbers named, fun both => named both.1,
        fun h => absurd h named⟩)
  · exact Or.inl ⟨Or.inr (loadChannel_of_not_numbersRead numbers), fun clean => numbers clean.1⟩

private theorem object_of_added (inside : 1 ≤ i ∧ i < 32) {c : LoadedChannel}
    (added : loadChannel ini i = .added c) :
    ∃ object : ChannelObject, object.channel = c.channel := by
  have numbers : NumbersRead ini i := by
    by_contra unread
    rw [loadChannel_of_not_numbersRead unread] at added
    cases added
  have named : Named (valuesOf ini) i := by
    by_contra unnamed
    rw [loadChannel_unnamed numbers unnamed] at added
    cases added
  obtain ⟨id, name, -, -, load⟩ := loadChannel_named numbers named
  rw [load, loadWorktime_eq (valuesOf ini) inside] at added
  have described : c.channel = describedChannel (valuesOf ini) i id name ∧
      acceptedSources (valuesOf ini) i ≠ [] := by
    split at added
    all_goals
      split at added
      · cases added
      · rename_i some
        cases added
        exact ⟨rfl, some⟩
  refine ⟨⟨c.channel, ?_, ?_⟩, rfl⟩
  · rw [described.1]
    show 0 < i ∧ i < 256
    omega
  · rw [described.1]
    obtain ⟨first, rest, accepted⟩ := List.exists_cons_of_ne_nil described.2
    simp [describedChannel, accepted]

theorem objects_of_loaded {sections : List ℕ} (inside : ∀ i ∈ sections, 1 ≤ i ∧ i < 32)
    {channels : List LoadedChannel} (loaded : loadSections ini sections = some channels) :
    ∃ objects : List ChannelObject,
      objects.map ChannelObject.channel = channels.map LoadedChannel.channel := by
  induction sections generalizing channels with
  | nil =>
      obtain rfl := Option.some.inj loaded
      exact ⟨[], rfl⟩
  | cons i rest ih =>
      rw [List.forall_mem_cons] at inside
      rw [loadSections] at loaded
      cases one : loadChannel ini i with
      | skipped =>
          rw [one] at loaded
          exact ih inside.2 loaded
      | added c =>
          rw [one] at loaded
          obtain ⟨others, later, rfl⟩ := Option.map_eq_some_iff.mp loaded
          obtain ⟨object, same⟩ := object_of_added inside.1 one
          obtain ⟨objects, rest⟩ := ih inside.2 later
          exact ⟨object :: objects, by simp [same, rest]⟩
      | nullChannel =>
          rw [one] at loaded
          cases loaded
      | nullNumber =>
          rw [one] at loaded
          cases loaded

variable (ini) in
private theorem loadSections_iff (sections : List ℕ) (inside : ∀ i ∈ sections, 1 ≤ i ∧ i < 32) :
    (∃ channels, loadSections ini sections = some channels ∧
      List.Forall₂ (AsConfigured (valuesOf ini))
        (sections.filter fun i =>
          Named (valuesOf ini) i ∧ acceptedSources (valuesOf ini) i ≠ []) channels) ↔
      ∀ i ∈ sections, Clean ini i := by
  induction sections with
  | nil => simp [loadSections]
  | cons i rest ih =>
      rw [List.forall_mem_cons] at inside
      rw [List.forall_mem_cons, ← ih inside.2, loadSections]
      rcases loadChannel_cases ini inside.1 with
        ⟨load | load, unclean⟩ | ⟨load, undescribed, clean⟩ | ⟨c, load, described, clean_iff⟩
      · rw [load]
        simp [unclean]
      · rw [load]
        simp [unclean]
      · rw [load, List.filter_cons_of_neg (by simpa using undescribed)]
        simp [clean]
      · rw [load, List.filter_cons_of_pos (by simpa using described), ← clean_iff]
        constructor
        · rintro ⟨channels, loaded, all⟩
          obtain ⟨others, later, rfl⟩ := Option.map_eq_some_iff.mp loaded
          rw [List.forall₂_cons] at all
          exact ⟨all.1, others, later, all.2⟩
        · rintro ⟨one, others, later, all⟩
          exact ⟨c :: others, by simp [later], List.forall₂_cons.mpr ⟨one, all⟩⟩

end dictionary

/-- For every dictionary: the loop completes without a null pointer and gives exactly one channel,
in increasing order, for each section with a service id, an id, a name and an accepted source, with
its sources and its worktime as configured, exactly when no number it asks for is the name of a
section, and each section that has a service id, an id, a name and a readable worktime has an
accepted source too and its worktime has the form `hh:mm-hh:mm`, or is read as four zeros. -/
theorem loaded_as_configured_iff (ini : Dictionary) :
    (∃ file, parseChannels ini = some file ∧
      List.Forall₂ (AsConfigured (valuesOf ini))
        ((List.range' 1 31).filter fun i =>
          Named (valuesOf ini) i ∧ acceptedSources (valuesOf ini) i ≠ [])
        file.channels) ↔
      ¬ NamesSection ini "Global:transport_stream_id" ∧ ∀ i, 1 ≤ i → i < 32 → Clean ini i := by
  have members : ∀ i ∈ List.range' 1 31, 1 ≤ i ∧ i < 32 := by
    intro i member
    rw [List.mem_range'_1] at member
    omega
  have loaded := loadSections_iff ini (List.range' 1 31) members
  have all : (∀ i ∈ List.range' 1 31, Clean ini i) ↔ ∀ i, 1 ≤ i → i < 32 → Clean ini i := by
    constructor
    · intro h i first last
      exact h i (List.mem_range'_1.mpr (by omega))
    · intro h i member
      obtain ⟨first, last⟩ := members i member
      exact h i first last
  rw [← all, ← loaded, parseChannels]
  by_cases names : NamesSection ini "Global:transport_stream_id"
  · rw [if_pos names]
    simp [names]
  · rw [if_neg names, and_iff_right names]
    constructor
    · rintro ⟨file, parsed, channels⟩
      obtain ⟨list, found, rfl⟩ := Option.map_eq_some_iff.mp parsed
      exact ⟨list, found, channels⟩
    · rintro ⟨list, found, channels⟩
      exact ⟨_, Option.map_eq_some_iff.mpr ⟨list, found, rfl⟩, channels⟩

/-- A file with one section; `extra` gives its further keys. -/
def oneSection (extra : List (String × String)) : Dictionary := fun key =>
  (List.lookup key ([("channel1:service_id", "1"), ("channel1:id", "btv"),
    ("channel1:name", "bTV")] ++ extra)).map some

/-- A file whose only section is called like a key. -/
def oneHeader (name : String) : Dictionary := fun key => if key = name then some none else none

/-- A worktime without a source is stored through a null pointer; four numbers of one digit are
taken for a worktime; and the name of a section is read as a number, through a null pointer. -/
theorem worktime_without_source :
    parseChannels (oneSection [("channel1:worktime", "14:18-14:19")]) = none ∧
      (loadSections (oneSection [("channel1:source1", "udp://239.0.0.1:5000/"),
          ("channel1:worktime", "1:2-3:4")]) [1]).map (fun channels => channels.map
            fun c => (c.channel.index, c.worktimeStart, c.worktimeEnd)) =
        some [(1, 3720, 11040)] ∧
      worktimeForm "1:2-3:4".toList = none ∧
      parseChannels (oneHeader "channel1:service_id") = none := by
  refine ⟨Option.isNone_iff_eq_none.mp (by decide +kernel), by decide +kernel, by decide +kernel,
    Option.isNone_iff_eq_none.mp (by decide +kernel)⟩

end Mptsd.Reload.Load
