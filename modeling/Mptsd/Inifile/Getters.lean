/- Unit: Mptsd/Inifile/Getters
   source: src/iniparser.c (iniparser_getstring, iniparser_getint, iniparser_getboolean,
   ini_get_string, ini_get_int, ini_get_bool), src/config.c (config_load_epg_entry)
   digest: The functions that read a key of a dictionary, on the dictionary of a file: what they
   return is what the file says last about the key, cut to the size of a buffer. -/

import Mptsd.Epg.Model
import Mptsd.Inifile.Load

set_option autoImplicit false
set_option relaxedAutoImplicit false

namespace Mptsd.Inifile.Getters

open Mptsd.Ini (Values strtol)
open Mptsd.Inifile.Store
open Mptsd.Inifile.Line (strlwc)
open Mptsd.Inifile.Load
open Mptsd.Epg.Model (DvbStrings EpgEntry epgNew)
open Mptsd.Lib.Strings (CString)

def iniparserGetstring (d : Option Dict) (key : Text) (dflt : CharPtr) : CharPtr :=
  match d with
  | none => dflt
  | some d => dictionaryGet d (strlwc key) dflt

/-- `none` stands for a read through a null pointer. -/
def iniparserGetint (d : Option Dict) (key : Text) (notfound : ℤ) : Option ℤ :=
  match iniparserGetstring d key .invalidKey with
  | .invalidKey => some notfound
  | .null => none
  | .text str => some ((strtol (String.ofList str)).bmod (2 ^ 32))

def iniparserGetboolean (d : Option Dict) (key : Text) (notfound : ℤ) : Option ℤ :=
  match iniparserGetstring d key .invalidKey with
  | .invalidKey => some notfound
  | .null => none
  | .text [] => some notfound
  | .text (c :: _) =>
      if c = 'y' ∨ c = 'Y' ∨ c = '1' ∨ c = 't' ∨ c = 'T' then some 1
      else if c = 'n' ∨ c = 'N' ∨ c = '0' ∨ c = 'f' ∨ c = 'F' then some 0
      else some notfound

/-- `__handle_format`: of an array of 128 characters `vsnprintf` is told about 127, and it keeps one
for the end of the text. -/
def handleFormat (key : Text) : Text := key.take 126

def iniGetString (d : Option Dict) (dflt : CharPtr) (key : Text) : CharPtr :=
  iniparserGetstring d (handleFormat key) dflt

def iniGetInt (d : Option Dict) (dflt : ℤ) (key : Text) : Option ℤ :=
  iniparserGetint d (handleFormat key) dflt

def iniGetBool (d : Option Dict) (dflt : ℤ) (key : Text) : Option ℤ :=
  iniparserGetboolean d (handleFormat key) dflt

/-- A text that may be missing, as a `char *`. -/
def charPtr : Option String → CharPtr
  | none => .null
  | some s => .text s.toList

/-- What a `char *` says. -/
def CharPtr.string : CharPtr → Option String
  | .text s => some (String.ofList s)
  | _ => none

/-- `config_load_epg_entry`; `none` stands for a read through a null pointer. -/
def configLoadEpgEntry (dvb : DvbStrings) (ini : Option Dict) (entry channel : String) :
    Option (Option EpgEntry) := do
  let key := channel ++ "-" ++ entry
  let start ← iniGetInt ini 0 (key ++ ":start").toList
  let duration ← iniGetInt ini 0 (key ++ ":duration").toList
  let event := CharPtr.string (iniGetString ini .null (key ++ ":event").toList)
  let sdesc := CharPtr.string (iniGetString ini .null (key ++ ":sdescr").toList)
  let ldesc := CharPtr.string (iniGetString ini .null (key ++ ":descr").toList)
  let enc := CharPtr.string (iniGetString ini .null (key ++ ":encoding").toList)
  some (if start ≠ 0 ∧ duration ≠ 0 ∧ event.isSome then
      epgNew dvb start duration enc event sdesc ldesc
    else none)

/-- What is said last about a key, as it is looked up. -/
def said (given : List (Text × Option Text)) (key : String) : Option (Option Text) :=
  lastGiven (strlwc (handleFormat key.toList)) given

/-- The key is the name of a section. -/
def NamesSection (given : List (Text × Option Text)) (key : String) : Prop :=
  said given key = some none

instance (given : List (Text × Option Text)) (key : String) : Decidable (NamesSection given key) :=
  inferInstanceAs (Decidable (_ = _))

/-- The values of a file by key. -/
def fileView (given : List (Text × Option Text)) : Values := fun key =>
  (lastGiven (handleFormat key.toList) given).join.map String.ofList

/-- The getters return what is in the dictionary. -/
structure AgreesAt (d : Option Dict) (ini : Values) (key : String) : Prop where
  string : ∀ dflt, iniGetString d (charPtr dflt) key.toList =
    charPtr (Mptsd.Ini.iniGetString ini dflt key)
  int : ∀ dflt, iniGetInt d dflt key.toList = some (Mptsd.Ini.iniGetInt ini dflt key)
  bool : ∀ dflt, iniGetBool d dflt key.toList = some (Mptsd.Ini.iniGetBool ini dflt key)

/-- The getters find a null pointer, and those for numbers read through it. -/
structure ReadsNull (d : Option Dict) (key : String) : Prop where
  string : ∀ dflt, iniGetString d dflt key.toList = .null
  int : ∀ dflt, iniGetInt d dflt key.toList = none
  bool : ∀ dflt, iniGetBool d dflt key.toList = none

section getters

variable {before : Char} {file : CString} {dict : Dict} {log : List Report}
variable {given : List (Text × Option Text)} {key : String}

private theorem strlwc_handleFormat (key : String) :
    strlwc (handleFormat key.toList) = handleFormat key.toLower.toList := by
  have lower : key.toLower.toList = key.toList.map Char.toLower := String.toList_map
  rw [strlwc, handleFormat, handleFormat, lower, List.take_take]
  exact List.map_take

private theorem fileView_toLower (given : List (Text × Option Text)) (key : String) :
    fileView given key.toLower = (said given key).join.map String.ofList := by
  rw [said, strlwc_handleFormat]
  rfl

private theorem agreesAt
    (values : ∀ key dflt, dictionaryGet dict key dflt = givenGet given key dflt)
    (other : ¬ NamesSection given key) : AgreesAt (some dict) (fileView given) key := by
  have found : ∀ dflt, iniparserGetstring (some dict) (handleFormat key.toList) dflt =
      givenGet given (strlwc (handleFormat key.toList)) dflt := fun dflt => values _ _
  have view := fileView_toLower given key
  rw [NamesSection, said] at other
  rw [said] at view
  cases here : lastGiven (strlwc (handleFormat key.toList)) given with
  | none =>
      rw [here] at view
      have text : ∀ dflt, iniparserGetstring (some dict) (handleFormat key.toList) dflt = dflt := by
        intro dflt
        rw [found, givenGet, here]
      constructor
      · intro dflt
        rw [iniGetString, text, Mptsd.Ini.iniGetString, view]
        rfl
      · intro dflt
        rw [iniGetInt, iniparserGetint, text, Mptsd.Ini.iniGetInt, view]
        rfl
      · intro dflt
        rw [iniGetBool, iniparserGetboolean, text, Mptsd.Ini.iniGetBool, view]
        rfl
  | some val =>
      cases val with
      | none => exact absurd here other
      | some s =>
          rw [here] at view
          have text : ∀ dflt, iniparserGetstring (some dict) (handleFormat key.toList) dflt =
              .text s := by
            intro dflt
            rw [found, givenGet, here]
          constructor
          · intro dflt
            rw [iniGetString, text, Mptsd.Ini.iniGetString, view]
            exact congrArg CharPtr.text String.toList_ofList.symm
          · intro dflt
            rw [iniGetInt, iniparserGetint, text, Mptsd.Ini.iniGetInt, view]
            rfl
          · intro dflt
            rw [iniGetBool, iniparserGetboolean, text, Mptsd.Ini.iniGetBool, view]
            dsimp only [Option.join_some, Option.map_some]
            rw [String.toList_ofList]
            cases s with
            | nil => rfl
            | cons c s =>
                dsimp only
                split_ifs <;> rfl

private theorem readsNull
    (values : ∀ key dflt, dictionaryGet dict key dflt = givenGet given key dflt)
    (header : NamesSection given key) : ReadsNull (some dict) key := by
  have text : ∀ dflt, iniparserGetstring (some dict) (handleFormat key.toList) dflt = .null := by
    intro dflt
    rw [iniparserGetstring, values, givenGet]
    rw [NamesSection, said] at header
    rw [header]
  constructor
  · exact text
  · intro dflt
    rw [iniGetInt, iniparserGetint, text]
  · intro dflt
    rw [iniGetBool, iniparserGetboolean, text]

/-- The getters return what the file says last about a key, cut to 126 characters. If that is only
the name of a section, they find a null pointer. -/
theorem getters_say (loaded : iniparserLoad before (some file) = .done (some dict) log)
    (key : String) :
    if NamesSection (reading (fileLines file)).given key then ReadsNull (some dict) key
    else AgreesAt (some dict) (fileView (reading (fileLines file)).given) key := by
  have values := (loaded_gives loaded).2
  split_ifs with header
  · exact readsNull values header
  · exact agreesAt values header

/-- A file in which a key is given twice, and an error is forgotten. -/
def sampleFile : CString :=
  ⟨"[Global]\nnetwork_id = 1\nnonsense\n; \\\n\nnetwork_id = 0x7 # new\n".toList, by decide⟩

/-- Under the name of its section there is nothing to read, under the key there is the last
value. -/
theorem getters_say_sample :
    ∃ dict log, iniparserLoad 'x' (some sampleFile) = .done (some dict) log ∧
      ReadsNull (some dict) "Global" ∧
      AgreesAt (some dict) (fileView (reading (fileLines sampleFile)).given)
        "Global:network_id" := by
  obtain ⟨dict, log, loaded⟩ := exists_loaded 'x' sampleFile
    (by decide +kernel) (by decide +kernel) (by decide +kernel) (by decide +kernel)
  have header := getters_say loaded "Global"
  have value := getters_say loaded "Global:network_id"
  rw [if_pos (by decide +kernel)] at header
  rw [if_neg (by decide +kernel)] at value
  exact ⟨dict, log, loaded, header, value⟩

private theorem string_iniGetString
    (values : ∀ key dflt, dictionaryGet dict key dflt = givenGet given key dflt) (key : String) :
    CharPtr.string (iniGetString (some dict) .null key.toList) =
      Mptsd.Ini.iniGetString (fileView given) none key := by
  by_cases header : NamesSection given key
  · have view := fileView_toLower given key
    rw [NamesSection] at header
    rw [(readsNull values header).string, Mptsd.Ini.iniGetString, view, header]
    rfl
  · have agrees := (agreesAt values header).string none
    rw [charPtr] at agrees
    rw [agrees]
    cases Mptsd.Ini.iniGetString (fileView given) none key with
    | none => rfl
    | some s => exact congrArg some String.ofList_toList

/-- An entry of the guide is read off a file as off its values, unless the key of one of its two
numbers is the name of a section. -/
theorem epgEntry_on_file (dvb : DvbStrings)
    (loaded : iniparserLoad before (some file) = .done (some dict) log) (entry channel : String) :
    configLoadEpgEntry dvb (some dict) entry channel =
      if NamesSection (reading (fileLines file)).given (channel ++ "-" ++ entry ++ ":start") ∨
          NamesSection (reading (fileLines file)).given (channel ++ "-" ++ entry ++ ":duration")
      then none
      else some (Mptsd.Epg.Model.configLoadEpgEntry dvb (fileView (reading (fileLines file)).given)
        entry channel) := by
  have values := (loaded_gives loaded).2
  rw [configLoadEpgEntry]
  dsimp only
  by_cases start :
      NamesSection (reading (fileLines file)).given (channel ++ "-" ++ entry ++ ":start")
  · rw [if_pos (.inl start), (readsNull values start).int]
    rfl
  · rw [(agreesAt values start).int]
    by_cases duration :
        NamesSection (reading (fileLines file)).given (channel ++ "-" ++ entry ++ ":duration")
    · rw [if_pos (.inr duration), (readsNull values duration).int]
      rfl
    · rw [if_neg (not_or.mpr ⟨start, duration⟩), (agreesAt values duration).int]
      simp only [string_iniGetString values]
      rfl

/-- A guide in which the key of one start is the name of a section. -/
def guideFile : CString :=
  ⟨"[tv-now]\nstart = 20250102-10:30\nduration = 01:30\nevent = News\n[tv-next:start]\n".toList,
    by decide⟩

theorem epgEntry_on_file_sample :
    ∃ dict log, iniparserLoad 'x' (some guideFile) = .done (some dict) log ∧
      configLoadEpgEntry ⟨id, id⟩ (some dict) "now" "tv" =
        some (Mptsd.Epg.Model.configLoadEpgEntry ⟨id, id⟩
          (fileView (reading (fileLines guideFile)).given) "now" "tv") ∧
      configLoadEpgEntry ⟨id, id⟩ (some dict) "next" "tv" = none := by
  obtain ⟨dict, log, loaded⟩ := exists_loaded 'x' guideFile
    (by decide +kernel) (by decide +kernel) (by decide +kernel) (by decide +kernel)
  have now := epgEntry_on_file ⟨id, id⟩ loaded "now" "tv"
  have next := epgEntry_on_file ⟨id, id⟩ loaded "next" "tv"
  rw [if_neg (by decide +kernel)] at now
  rw [if_pos (by decide +kernel)] at next
  exact ⟨dict, log, loaded, now, next⟩

end getters

end Mptsd.Inifile.Getters
