/- Unit: Mptsd/Inifile/Dump
   source: src/iniparser.c (iniparser_getnsec, iniparser_getsecname, iniparser_dump_ini)
   digest: A dictionary written to a file, and which dictionaries come back when the file is
   loaded. -/

import Mptsd.Inifile.Load

set_option autoImplicit false
set_option relaxedAutoImplicit false

namespace Mptsd.Inifile.Dump

open Mptsd.Inifile.Store
open Mptsd.Inifile.Line
open Mptsd.Inifile.Load
open Mptsd.Lib.Lines (splitLines)
open Mptsd.Lib.Slots (recorded)
open Mptsd.Lib.Strings (CString nul)
open Mptsd.Reload.Load (isSpace)

/-- The keys that are there, in the order of their places. -/
def Dict.entries (d : Dict) : List (Text × Option Text) := d.places.filterMap Place.slot

/-- `strchr(key, ':')==NULL`. -/
def isSection (key : Text) : Bool := !key.contains ':'

def iniparserGetnsec : Option Dict → ℤ
  | none => -1
  | some d => (Dict.entries d).countP fun x => isSection x.1

/-- The loop of `iniparser_getsecname`. -/
def secnameFrom (n : ℤ) : ℤ → List Place → Option Text
  | _, [] => none
  | foundsec, p :: places =>
      match p.key with
      | none => secnameFrom n foundsec places
      | some key =>
          if isSection key then
            if foundsec + 1 > n then some key else secnameFrom n (foundsec + 1) places
          else secnameFrom n foundsec places

def iniparserGetsecname (d : Option Dict) (n : ℤ) : Option Text :=
  match d with
  | none => none
  | some d => if n < 0 then none else secnameFrom n 0 d.places

/-- `%-30s = %s`. -/
def entryLine (key val : Text) : Text :=
  key ++ List.replicate (30 - key.length) ' ' ++ ' ' :: '=' :: ' ' :: val

/-- The keys of a section, without its name. -/
def sectionEntries (d : Dict) (secname : Text) : List (Text × Option Text) :=
  ((Dict.entries d).filter fun x => x.1.take (secname.length + 1) = secname ++ [':']).map fun x =>
    (x.1.drop (secname.length + 1), x.2)

/-- A turn of the loop over the sections; `none` when `sprintf` writes behind the end of `keym`. -/
def dumpSection (d : Dict) (secname : Text) : Option Text :=
  if asciiLineSz < secname.length + 1 then none
  else
    some ('\n' :: '[' :: secname ++ [']', '\n'] ++
      (sectionEntries d secname).flatMap fun x => entryLine x.1 (x.2.getD []) ++ ['\n'])

/-- What is written to the file. The C library prints `(null)` for a null pointer. -/
def iniparserDumpIni (d : Option Dict) : Option Text :=
  match d with
  | none => some []
  | some d =>
      let nsec := iniparserGetnsec (some d)
      if nsec < 1 then
        some ((Dict.entries d).flatMap fun x =>
          x.1 ++ " = ".toList ++ x.2.getD "(null)".toList ++ ['\n'])
      else do
        let sections ← (List.range nsec.toNat).mapM fun i : ℕ =>
          (iniparserGetsecname (some d) i).bind (dumpSection d)
        some (sections.flatten ++ ['\n'])

/-- No blanks at either end. -/
def Stripped (s : Text) : Prop :=
  (∀ c, s.head? = some c → isSpace c = false) ∧ ∀ c, s.getLast? = some c → isSpace c = false

private theorem stripped_of_all {s : Text} (first : s.head?.all (fun c => !isSpace c) = true)
    (last : s.getLast?.all (fun c => !isSpace c) = true) : Stripped s := by
  rw [Option.all_eq_true] at first last
  refine ⟨fun c found => ?_, fun c found => ?_⟩
  · simpa using first c found
  · simpa using last c found

/-- A name as the parser stores it. -/
structure Name (s : Text) : Prop where
  nonempty : s ≠ []
  lower : s.map Char.toLower = s
  stripped : Stripped s
  line : '\n' ∉ s ∧ nul ∉ s

/-- The name of a section that can be read back. -/
structure SectionName (sect : Text) : Prop where
  name : Name sect
  colon : ':' ∉ sect
  bracket : ']' ∉ sect
  room : sect.length + 4 ≤ asciiLineSz

/-- A key and a value whose line can be read back as such. -/
structure EntryText (key val : Text) : Prop where
  name : Name key
  equals : '=' ∉ key
  start : key.head? ≠ some '#' ∧ key.head? ≠ some '['
  stripped : Stripped val
  line : '\n' ∉ val ∧ nul ∉ val
  comment : ';' ∉ val ∧ '#' ∉ val
  quote : val.head? ≠ some '"' ∧ val.head? ≠ some '\''
  continued : val.getLast? ≠ some '\\'
  room : (entryLine key val).length + 2 ≤ asciiLineSz

/-- Keys without a colon are sections, and all others are entries of one of them, with texts that
can be read back. -/
structure Dumpable (m : KeyMap) : Prop where
  sections : ∀ sect val, m.lookup sect = some val → isSection sect = true →
    val = none ∧ SectionName sect
  entries : ∀ key val, m.lookup key = some val → isSection key = false →
    ∃ sect name text, key = entryKey sect name ∧ val = some text ∧ isSection sect = true ∧
      sect ∈ m ∧ EntryText name text ∧ key.length ≤ asciiLineSz

section entries

variable {d : Dict} {m : KeyMap}

private theorem mem_recorded {slots : List (Option (Text × Option Text))} {key : Text}
    {val : Option Text} :
    val ∈ recorded key slots ↔ some (key, val) ∈ slots := by
  induction slots with
  | nil => simp [recorded]
  | cons slot slots ih =>
      cases slot with
      | none => simpa [recorded] using ih
      | some x =>
          obtain ⟨own, stored⟩ := x
          by_cases same : own = key
          · subst same
            simp [recorded, ih]
          · simp [recorded, same, ih, Ne.symm same]

private theorem mem_entries (h : Represents d m) {key : Text} {val : Option Text} :
    (key, val) ∈ Dict.entries d ↔ m.lookup key = some val := by
  have value : recorded key d.slots = (m.lookup key).toList := h.holds.values key
  have stored : (key, val) ∈ Dict.entries d ↔ some (key, val) ∈ d.slots := by
    rw [Dict.entries, List.mem_filterMap, Dict.slots, List.mem_map]
  rw [stored, ← mem_recorded, value, Option.mem_toList]

/-- The sections in the order of their places. -/
def sections (d : Dict) : List Text := ((Dict.entries d).map Prod.fst).filter isSection

private theorem secnameFrom_eq (n f : ℕ) (places : List Place) (le : f ≤ n) :
    secnameFrom n f places =
      (((places.filterMap Place.slot).map Prod.fst).filter isSection)[n - f]? := by
  induction places generalizing f with
  | nil => rfl
  | cons p places ih =>
      cases stored : p.key with
      | none =>
          have slot : p.slot = none := by rw [Place.slot, stored]; rfl
          rw [secnameFrom, stored, List.filterMap_cons_none slot]
          exact ih f le
      | some key =>
          have slot : p.slot = some (key, p.val) := by rw [Place.slot, stored]; rfl
          rw [secnameFrom, stored, List.filterMap_cons_some slot, List.map_cons]
          dsimp only
          by_cases sect : isSection key = true
          · rw [if_pos sect, List.filter_cons_of_pos sect]
            split_ifs with reached
            · have last : n - f = 0 := by omega
              rw [last]
              rfl
            · have more : n - f = n - (f + 1) + 1 := by omega
              rw [more, List.getElem?_cons_succ]
              exact ih (f + 1) (by omega)
          · rw [if_neg sect, List.filter_cons_of_neg sect]
            exact ih f le

private theorem iniparserGetnsec_eq (d : Dict) :
    iniparserGetnsec (some d) = (sections d).length := by
  rw [iniparserGetnsec, sections, ← List.countP_eq_length_filter, List.countP_map]
  rfl

private theorem iniparserGetsecname_eq (d : Dict) (n : ℕ) :
    iniparserGetsecname (some d) n = (sections d)[n]? := by
  have named := secnameFrom_eq n 0 d.places (Nat.zero_le n)
  rw [iniparserGetsecname, if_neg (by omega)]
  exact named

end entries

section text

variable {d : Dict} {m : KeyMap} {sect : Text}

/-- The lines of a section. -/
def sectionLines (d : Dict) (sect : Text) : List Text :=
  [] :: ('[' :: sect ++ [']']) :: (sectionEntries d sect).map fun x => entryLine x.1 (x.2.getD [])

def dumpLines (d : Dict) : List Text := (sections d).flatMap (sectionLines d) ++ [[]]

private theorem dumpSection_eq (room : sect.length + 1 ≤ asciiLineSz) :
    dumpSection d sect = some ((sectionLines d sect).flatMap (· ++ ['\n'])) := by
  rw [dumpSection, if_neg (not_lt.mpr room), sectionLines]
  simp [List.flatMap_map]

private theorem mapM_eq_some {α β : Type} {f : α → Option β} {g : α → β} {xs : List α}
    (maps : ∀ x ∈ xs, f x = some (g x)) : xs.mapM f = some (xs.map g) := by
  induction xs with
  | nil => rfl
  | cons x xs ih =>
      rw [List.forall_mem_cons] at maps
      rw [List.mapM_cons, maps.1, ih maps.2]
      rfl

private theorem mapM_dumpSection (rooms : ∀ sect ∈ sections d, sect.length + 1 ≤ asciiLineSz) :
    (List.range (sections d).length).mapM
        (fun i : ℕ => (iniparserGetsecname (some d) i).bind (dumpSection d)) =
      some ((sections d).map fun sect => (sectionLines d sect).flatMap (· ++ ['\n'])) := by
  have one : ∀ i ∈ List.range (sections d).length,
      (iniparserGetsecname (some d) i).bind (dumpSection d) =
        some ((sectionLines d ((sections d).getD i [])).flatMap (· ++ ['\n'])) := by
    intro i member
    have lt := List.mem_range.mp member
    rw [iniparserGetsecname_eq, List.getElem?_eq_getElem lt, Option.bind_some,
      dumpSection_eq (rooms _ (List.getElem_mem lt)), List.getD_eq_getElem?_getD,
      List.getElem?_eq_getElem lt, Option.getD_some]
  rw [mapM_eq_some one]
  refine congrArg some (List.ext_getElem ?_ ?_)
  · simp
  · intro i left right
    have lt : i < (sections d).length := by simpa using right
    simp [lt]

private theorem iniparserDumpIni_eq (some_section : sections d ≠ [])
    (rooms : ∀ sect ∈ sections d, sect.length + 1 ≤ asciiLineSz) :
    iniparserDumpIni (some d) = some ((dumpLines d).flatMap (· ++ ['\n'])) := by
  have pos := List.length_pos_iff.mpr some_section
  rw [iniparserDumpIni, iniparserGetnsec_eq, if_neg (by omega), Int.toNat_natCast,
    mapM_dumpSection rooms, dumpLines, List.flatMap_append, List.flatMap_assoc]
  rfl

end text

section lines

variable {s key val sect : Text}

private theorem dropWhile_eq_self {p : Char → Bool} (front : ∀ c, s.head? = some c → p c = false) :
    s.dropWhile p = s := by
  cases s with
  | nil => rfl
  | cons c s => exact List.dropWhile_cons_of_neg (by simp [front c rfl])

private theorem rdropWhile_eq_self {p : Char → Bool}
    (back : ∀ c, s.getLast? = some c → p c = false) :
    s.rdropWhile p = s := by
  rw [List.rdropWhile_eq_self_iff]
  intro nonempty
  simp [back _ (List.getLast?_eq_some_getLast nonempty)]

private theorem rdropWhile_blanks {p : Char → Bool} (n : ℕ) (blank : p ' ' = true) :
    (s ++ List.replicate n ' ').rdropWhile p = s.rdropWhile p := by
  induction n with
  | zero => rw [List.replicate_zero, List.append_nil]
  | succ n ih =>
      rw [List.replicate_succ', ← List.append_assoc, List.rdropWhile_concat_pos _ _ _ blank]
      exact ih

private theorem Stripped.strstrip (stripped : Stripped s) : strstrip s = s := by
  rw [Line.strstrip, dropWhile_eq_self stripped.1]
  exact rdropWhile_eq_self stripped.2

private theorem trimEnd_eq_self (back : ∀ c, s.getLast? = some c → isSpace c = false) :
    trimEnd s = s := by
  refine rdropWhile_eq_self fun c last => ?_
  have other := back c last
  have newline : c ≠ '\n' := by
    rintro rfl
    exact Bool.noConfusion other
  simp [newline, other]

private theorem strlwc_of_lower (lower : s.map Char.toLower = s) (room : s.length ≤ asciiLineSz) :
    strlwc s = s := by
  rw [strlwc, List.take_of_length_le room]
  exact lower

private theorem readLine_header (named : SectionName sect) :
    readLine ('[' :: sect ++ [']']) = .header (some sect) := by
  have stripped : Stripped ('[' :: sect ++ [']']) := by
    constructor
    · intro c first
      obtain rfl : '[' = c := by simpa using first
      rfl
    · intro c last
      rw [List.getLast?_concat] at last
      obtain rfl := Option.some.inj last
      rfl
  have inner : (sect ++ [']']).takeWhile (· != ']') = sect := by
    have plain : ∀ c ∈ sect, (c != ']') = true := by
      intro c member
      rw [bne_iff_ne]
      rintro rfl
      exact named.bracket member
    rw [List.takeWhile_append_of_pos plain]
    simp
  have name : strlwc (strstrip sect) = sect := by
    rw [named.name.stripped.strstrip]
    exact strlwc_of_lower named.name.lower (by have := named.room; omega)
  rw [readLine, stripped.strstrip]
  rw [if_neg (by simp), if_pos ⟨rfl, List.getLast?_concat⟩, readHeader, List.cons_append,
    List.tail_cons, inner]
  obtain ⟨c, rest, rfl⟩ := List.exists_cons_of_ne_nil named.name.nonempty
  dsimp only
  rw [name]

/-- What stands in front of the equals sign of an entry. -/
def keyPart (key : Text) : Text := key ++ List.replicate (30 - key.length + 1) ' '

/-- What is left behind the equals sign when the end of the line is trimmed. -/
def valuePart (val : Text) : Text := if val = [] then [] else ' ' :: val

private theorem entryLine_eq (key val : Text) :
    entryLine key val = keyPart key ++ '=' :: ' ' :: val := by
  rw [entryLine, keyPart, List.replicate_succ']
  simp

private theorem trimEnd_entryLine (entry : EntryText key val) :
    trimEnd (entryLine key val) = keyPart key ++ '=' :: valuePart val := by
  rw [entryLine_eq, valuePart]
  split_ifs with empty
  · subst empty
    have ended : keyPart key ++ ['=', ' '] = (keyPart key ++ ['=']) ++ [' '] := by simp
    rw [trimEnd, ended, List.rdropWhile_concat_pos _ _ _ rfl]
    exact List.rdropWhile_concat_neg _ _ _ (by decide)
  · refine trimEnd_eq_self fun c last => entry.stripped.2 c ?_
    rwa [List.getLast?_append_of_ne_nil _ (by simp), List.getLast?_cons_cons,
      List.getLast?_cons_of_ne_nil empty] at last

private theorem readValue_eq (entry : EntryText key val) : readValue val = val := by
  have bare : (val.takeWhile fun c => c != ';' && c != '#') = val := by
    refine List.takeWhile_eq_self_iff.mpr fun c member => ?_
    have semicolon : c ≠ ';' := by
      rintro rfl
      exact entry.comment.1 member
    have hash : c ≠ '#' := by
      rintro rfl
      exact entry.comment.2 member
    simp [semicolon, hash]
  have text : valueText val = val := by
    cases val with
    | nil => rfl
    | cons c rest =>
        have quote := entry.quote
        simp only [List.head?_cons, ne_eq, Option.some.injEq] at quote
        rw [valueText, bare]
        exact if_neg (not_or.mpr quote)
  rw [readValue, text, entry.stripped.strstrip, unquoteEmpty]
  refine if_neg ?_
  rintro (rfl | rfl)
  · exact entry.quote.1 rfl
  · exact entry.quote.2 rfl

private theorem readLine_entry (entry : EntryText key val) :
    readLine (keyPart key ++ '=' :: valuePart val) = .entry key val := by
  obtain ⟨c, rest, rfl⟩ := List.exists_cons_of_ne_nil entry.name.nonempty
  have stripped : Stripped (keyPart (c :: rest) ++ '=' :: valuePart val) := by
    constructor
    · exact entry.name.stripped.1
    · intro d last
      rw [List.getLast?_append_of_ne_nil _ (by simp), valuePart] at last
      split_ifs at last with empty
      · obtain rfl : '=' = d := by simpa using last
        rfl
      · rw [List.getLast?_cons_cons, List.getLast?_cons_of_ne_nil empty] at last
        exact entry.stripped.2 d last
  have plain : ∀ d ∈ keyPart (c :: rest), (d != '=') = true := by
    intro d member
    rw [bne_iff_ne]
    rintro rfl
    rcases List.mem_append.mp member with own | blank
    · exact entry.equals own
    · exact absurd (List.eq_of_mem_replicate blank) (by decide)
  have front : (keyPart (c :: rest) ++ '=' :: valuePart val).takeWhile (· != '=') =
      keyPart (c :: rest) := by
    rw [List.takeWhile_append_of_pos plain]
    simp
  have back : (keyPart (c :: rest) ++ '=' :: valuePart val).dropWhile (· != '=') =
      '=' :: valuePart val := by
    rw [List.dropWhile_append_of_pos plain]
    simp
  have name : strlwc (strstrip (keyPart (c :: rest))) = c :: rest := by
    have trimmed : strstrip (keyPart (c :: rest)) = c :: rest := by
      have start : (keyPart (c :: rest)).dropWhile isSpace = keyPart (c :: rest) :=
        dropWhile_eq_self entry.name.stripped.1
      rw [strstrip, start, keyPart, rdropWhile_blanks _ rfl]
      exact rdropWhile_eq_self entry.name.stripped.2
    have room := entry.room
    rw [entryLine, List.length_append, List.length_append] at room
    rw [trimmed]
    exact strlwc_of_lower entry.name.lower (by omega)
  have value : (valuePart val).dropWhile isSpace = val := by
    rw [valuePart]
    split_ifs with empty
    · rw [empty]
      rfl
    · exact dropWhile_eq_self entry.stripped.1
  have start := entry.start
  rw [readLine, stripped.strstrip, if_neg, if_neg, readEntry, front, back]
  · rw [keyPart, List.cons_append] at name ⊢
    dsimp only
    rw [name, value, readValue_eq entry]
  · exact fun brackets => start.2 brackets.1
  · exact not_or.mpr ⟨by simp, start.1⟩

end lines

section reading

variable {r : Reading} {lines lines' : List Text} {given given' : List (Text × Option Text)}
variable {sect sect' key val : Text}

/-- Some lines that all have room are read without a complaint. They leave this section, and give
these keys. -/
structure Gives (r : Reading) (lines : List Text) (given : List (Text × Option Text))
    (sect : Text) : Prop where
  room : AllRoom r lines
  pending : (lines.foldl readStep r).pending = []
  errors : (lines.foldl readStep r).errors = r.errors
  log : (lines.foldl readStep r).log = r.log
  given : (lines.foldl readStep r).given = r.given ++ given
  sect : (lines.foldl readStep r).sect = sect

private theorem allRoom_append : AllRoom r (lines ++ lines') ↔
    AllRoom r lines ∧ AllRoom (lines.foldl readStep r) lines' := by
  induction lines generalizing r with
  | nil => exact (and_iff_right trivial).symm
  | cons line lines ih =>
      rw [List.cons_append, AllRoom, AllRoom, ih, List.foldl_cons, and_assoc]

private theorem Gives.append (first : Gives r lines given sect)
    (second : Gives (lines.foldl readStep r) lines' given' sect') :
    Gives r (lines ++ lines') (given ++ given') sect' := by
  constructor
  · exact allRoom_append.mpr ⟨first.room, second.room⟩
  · rw [List.foldl_append]
    exact second.pending
  · rw [List.foldl_append]
    exact second.errors.trans first.errors
  · rw [List.foldl_append]
    exact second.log.trans first.log
  · rw [List.foldl_append, second.given, first.given, List.append_assoc]
  · rw [List.foldl_append]
    exact second.sect

private theorem gives_line {line : Text} {r' : Reading} (room : HasRoom r line)
    (step : readStep r line = r') (pending : r'.pending = []) (errors : r'.errors = r.errors)
    (log : r'.log = r.log) (gives : r'.given = r.given ++ given)
    (leaves : r'.sect = sect) : Gives r [line] given sect := by
  subst step
  exact ⟨⟨room, trivial⟩, pending, errors, log, gives, leaves⟩

private theorem gives_blank (pending : r.pending = []) : Gives r [[]] [] r.sect := by
  have step : readStep r [] =
      { r with lineno := r.lineno + 1, pending := [], blank := true, followed := r.blank } := by
    rw [readStep]
    dsimp only
    rw [pending]
    rfl
  have room : HasRoom r [] := by
    rw [HasRoom, pending]
    exact Nat.le_of_ble_eq_true rfl
  exact gives_line room step rfl rfl rfl (List.append_nil _).symm rfl

private theorem gives_header (pending : r.pending = []) (errors : r.errors = 0)
    (named : SectionName sect) : Gives r ['[' :: sect ++ [']']] [(sect, none)] sect := by
  have step : readStep r ('[' :: sect ++ [']']) =
      { r with
        lineno := r.lineno + 1
        pending := []
        sect
        given := r.given ++ [(sect, none)]
        errors := 0
        followed := r.blank } := by
    have whole : trimEnd ('[' :: sect ++ [']']) = '[' :: sect ++ [']'] :=
      List.rdropWhile_concat_neg _ _ _ (by decide)
    have ended : ('[' :: sect ++ [']']).getLast? = some ']' := List.getLast?_concat
    rw [readStep]
    dsimp only
    rw [pending, List.nil_append, whole, ended]
    dsimp only
    rw [if_neg (by decide), Reading.take, readLine_header named]
    rfl
  have room : HasRoom r ('[' :: sect ++ [']']) := by
    have short := named.room
    rw [HasRoom, pending, List.length_append, List.length_cons, List.length_singleton,
      List.length_nil]
    omega
  exact gives_line room step rfl errors.symm rfl rfl rfl

private theorem gives_entry (pending : r.pending = []) (errors : r.errors = 0)
    (entry : EntryText key val) :
    Gives r [entryLine key val] [(entryKey r.sect key, some val)] r.sect := by
  have step : readStep r (entryLine key val) =
      { r with
        lineno := r.lineno + 1
        pending := []
        given := r.given ++ [(entryKey r.sect key, some val)]
        errors := 0
        followed := r.blank } := by
    have last : ∃ c, (keyPart key ++ '=' :: valuePart val).getLast? = some c ∧ c ≠ '\\' := by
      rw [List.getLast?_append_of_ne_nil _ (by simp), valuePart]
      split_ifs with empty
      · exact ⟨'=', rfl, by decide⟩
      · obtain ⟨c, ended⟩ := Option.ne_none_iff_exists'.mp
          (mt List.getLast?_eq_none_iff.mp empty)
        rw [List.getLast?_cons_cons, List.getLast?_cons_of_ne_nil empty]
        exact ⟨c, ended, fun same => entry.continued (same ▸ ended)⟩
    obtain ⟨c, ended, other⟩ := last
    rw [readStep]
    dsimp only
    rw [pending, List.nil_append, trimEnd_entryLine entry, ended]
    dsimp only
    rw [if_neg other, Reading.take, readLine_entry entry]
  have room : HasRoom r (entryLine key val) := by
    rw [HasRoom, pending, List.length_nil, Nat.zero_add]
    exact entry.room
  exact gives_line room step rfl errors.symm rfl rfl rfl

private theorem gives_entries {entries : List (Text × Option Text)} (pending : r.pending = [])
    (errors : r.errors = 0) (texts : ∀ x ∈ entries, ∃ val, x.2 = some val ∧ EntryText x.1 val) :
    Gives r (entries.map fun x => entryLine x.1 (x.2.getD []))
      (entries.map fun x => (entryKey r.sect x.1, x.2)) r.sect := by
  induction entries generalizing r with
  | nil => exact ⟨trivial, pending, rfl, rfl, (List.append_nil _).symm, rfl⟩
  | cons x entries ih =>
      rw [List.forall_mem_cons] at texts
      obtain ⟨⟨val, stored, entry⟩, texts⟩ := texts
      have first := gives_entry pending errors entry
      have others := ih first.pending (first.errors.trans errors) texts
      rw [first.sect] at others
      have both := first.append others
      rw [List.map_cons, List.map_cons, stored]
      exact both

end reading

section whole

variable {d : Dict} {m : KeyMap} {r : Reading} {sect : Text}

/-- What the lines of a section give. -/
def sectionGiven (d : Dict) (sect : Text) : List (Text × Option Text) :=
  (sect, none) :: (sectionEntries d sect).map fun x => (entryKey sect x.1, x.2)

private theorem mem_sectionEntries {name : Text} {val : Option Text} :
    (name, val) ∈ sectionEntries d sect ↔ (entryKey sect name, val) ∈ Dict.entries d := by
  have split : ∀ key : Text, key.take (sect.length + 1) = sect ++ [':'] ∧
      key.drop (sect.length + 1) = name ↔ key = entryKey sect name := by
    intro key
    have whole : entryKey sect name = (sect ++ [':']) ++ name := by simp [entryKey]
    have length : (sect ++ [':']).length = sect.length + 1 := by simp
    rw [whole]
    constructor
    · rintro ⟨front, back⟩
      rw [← front, ← back, List.take_append_drop]
    · rintro rfl
      exact ⟨List.take_left' length, List.drop_left' length⟩
  rw [sectionEntries, List.mem_map]
  constructor
  · rintro ⟨⟨key, stored⟩, member, same⟩
    obtain ⟨here, front⟩ := List.mem_filter.mp member
    obtain ⟨rest, rfl⟩ := Prod.mk.inj same
    rw [← (split key).mp ⟨of_decide_eq_true front, rest⟩]
    exact here
  · intro member
    obtain ⟨front, back⟩ := (split _).mpr rfl
    exact ⟨_, List.mem_filter.mpr ⟨member, decide_eq_true front⟩, Prod.ext back rfl⟩

private theorem mem_sections : sect ∈ sections d ↔
    isSection sect = true ∧ ∃ val, (sect, val) ∈ Dict.entries d := by
  rw [sections, List.mem_filter, List.mem_map]
  constructor
  · rintro ⟨⟨⟨own, val⟩, member, rfl⟩, named⟩
    exact ⟨named, val, member⟩
  · rintro ⟨named, val, member⟩
    exact ⟨⟨_, member, rfl⟩, named⟩

private theorem entryKey_inj {sect' name name' : Text} (plain : isSection sect = true)
    (plain' : isSection sect' = true) (same : entryKey sect name = entryKey sect' name') :
    sect = sect' ∧ name = name' := by
  have front : ∀ sect name : Text, isSection sect = true →
      (entryKey sect name).takeWhile (· != ':') = sect := by
    intro sect name plain
    have other : ∀ c ∈ sect, (c != ':') = true := by
      intro c member
      rw [bne_iff_ne]
      rintro rfl
      simp [isSection, member] at plain
    rw [entryKey, List.takeWhile_append_of_pos other]
    simp
  have own : sect = sect' := by
    rw [← front sect name plain, same, front sect' name' plain']
  subst own
  exact ⟨rfl, (List.cons.inj (List.append_cancel_left same)).2⟩

private theorem not_isSection_entryKey (sect name : Text) :
    isSection (entryKey sect name) = false := by
  simp [isSection, entryKey]

variable (h : Represents d m) (dumpable : Dumpable m)
include h dumpable

private theorem sectionName_of_mem (member : sect ∈ sections d) : SectionName sect := by
  obtain ⟨named, val, stored⟩ := mem_sections.mp member
  exact (dumpable.sections sect val ((mem_entries h).mp stored) named).2

private theorem entryText_of_mem (member : sect ∈ sections d) :
    ∀ x ∈ sectionEntries d sect, ∃ val, x.2 = some val ∧ EntryText x.1 val ∧
      (entryKey sect x.1).length ≤ asciiLineSz := by
  rintro ⟨name, val⟩ stored
  have found := (mem_entries h).mp (mem_sectionEntries.mp stored)
  obtain ⟨own, name', text, key, rfl, plain, -, entry, room⟩ :=
    dumpable.entries _ val found (not_isSection_entryKey sect name)
  obtain ⟨rfl, rfl⟩ := entryKey_inj (mem_sections.mp member).1 plain key
  exact ⟨text, rfl, entry, room⟩

private theorem gives_section (pending : r.pending = []) (errors : r.errors = 0)
    (member : sect ∈ sections d) : Gives r (sectionLines d sect) (sectionGiven d sect) sect := by
  have blank := gives_blank pending
  have header := gives_header blank.pending (blank.errors.trans errors)
    (sectionName_of_mem h dumpable member)
  have front := blank.append header
  have entries := gives_entries front.pending (front.errors.trans errors)
    fun x stored => (entryText_of_mem h dumpable member x stored).imp fun _ all => ⟨all.1, all.2.1⟩
  rw [front.sect] at entries
  exact front.append entries

private theorem gives_sections {chosen : List Text} (pending : r.pending = [])
    (errors : r.errors = 0)
    (members : ∀ sect ∈ chosen, sect ∈ sections d) :
    ∃ sect, Gives r (chosen.flatMap (sectionLines d)) (chosen.flatMap (sectionGiven d)) sect := by
  induction chosen generalizing r with
  | nil => exact ⟨r.sect, trivial, pending, rfl, rfl, (List.append_nil _).symm, rfl⟩
  | cons sect chosen ih =>
      rw [List.forall_mem_cons] at members
      have first := gives_section h dumpable pending errors members.1
      obtain ⟨last, others⟩ := ih first.pending (first.errors.trans errors) members.2
      exact ⟨last, first.append others⟩

private theorem mem_given (key : Text) (val : Option Text) :
    (key, val) ∈ (sections d).flatMap (sectionGiven d) ↔ m.lookup key = some val := by
  rw [List.mem_flatMap]
  constructor
  · rintro ⟨sect, member, stored⟩
    rw [sectionGiven, List.mem_cons, List.mem_map] at stored
    rcases stored with header | ⟨⟨name, val⟩, entry, same⟩
    · obtain ⟨rfl, rfl⟩ := Prod.mk.inj header
      obtain ⟨named, val, there⟩ := mem_sections.mp member
      have found := (mem_entries h).mp there
      rw [found, (dumpable.sections _ _ found named).1]
    · obtain ⟨rfl, rfl⟩ := Prod.mk.inj same
      exact (mem_entries h).mp (mem_sectionEntries.mp entry)
  · intro found
    cases named : isSection key with
    | true =>
        obtain ⟨rfl, -⟩ := dumpable.sections key val found named
        have stored := (mem_entries h).mpr found
        exact ⟨key, mem_sections.mpr ⟨named, none, stored⟩, List.mem_cons_self⟩
    | false =>
        obtain ⟨sect, name, text, rfl, rfl, plain, there, -⟩ := dumpable.entries key val found named
        obtain ⟨own, header⟩ := Option.ne_none_iff_exists'.mp
          (mt Finmap.lookup_eq_none.mp (not_not_intro there))
        have member := mem_sections.mpr ⟨plain, own, (mem_entries h).mpr header⟩
        refine ⟨sect, member,
          List.mem_cons_of_mem _ (List.mem_map.mpr ⟨(name, some text), ?_, rfl⟩)⟩
        exact mem_sectionEntries.mpr ((mem_entries h).mpr found)

private theorem plain_dumpLines : ∀ line ∈ dumpLines d, '\n' ∉ line ∧ nul ∉ line := by
  have other : '\n' ≠ ' ' ∧ '\n' ≠ '=' ∧ '\n' ≠ '[' ∧ '\n' ≠ ']' ∧
      nul ≠ ' ' ∧ nul ≠ '=' ∧ nul ≠ '[' ∧ nul ≠ ']' := by decide
  rw [dumpLines, List.forall_mem_append, List.forall_mem_singleton]
  refine ⟨?_, List.not_mem_nil, List.not_mem_nil⟩
  intro line member
  obtain ⟨sect, chosen, own⟩ := List.mem_flatMap.mp member
  have name := (sectionName_of_mem h dumpable chosen).name.line
  rw [sectionLines, List.mem_cons, List.mem_cons, List.mem_map] at own
  rcases own with rfl | rfl | ⟨x, stored, rfl⟩
  · exact ⟨List.not_mem_nil, List.not_mem_nil⟩
  · simp [name, other]
  · obtain ⟨val, same, entry, -⟩ := entryText_of_mem h dumpable chosen x stored
    rw [same]
    simp [entryLine, entry.name.line, entry.line, other]

private theorem gives_dumpLines : ∃ sect,
    Gives readingStart (dumpLines d) ((sections d).flatMap (sectionGiven d)) sect := by
  obtain ⟨last, front⟩ :=
    gives_sections h dumpable (r := readingStart) rfl rfl fun _ member => member
  have whole := front.append (gives_blank front.pending)
  rw [List.append_nil] at whole
  exact ⟨_, whole⟩

private theorem keysFit_given : KeysFit ((sections d).flatMap (sectionGiven d)) := by
  rintro ⟨key, val⟩ member valued
  have found := (mem_given h dumpable _ _).mp member
  cases named : isSection key with
  | true =>
      rw [(dumpable.sections key val found named).1] at valued
      cases valued
  | false =>
      obtain ⟨-, -, -, -, -, -, -, -, room⟩ := dumpable.entries key val found named
      exact room

omit h dumpable in
private theorem lastGiven_eq_lookup {given : List (Text × Option Text)}
    (gives : ∀ key val, (key, val) ∈ given ↔ m.lookup key = some val) (key : Text) :
    lastGiven key given = m.lookup key := by
  rw [lastGiven]
  cases last : (given.filter fun x => x.1 = key).getLast? with
  | none =>
      have missing := List.getLast?_eq_none_iff.mp last
      rw [List.filter_eq_nil_iff] at missing
      cases found : m.lookup key with
      | none => rfl
      | some val => exact absurd (decide_eq_true rfl) (missing _ ((gives key val).mpr found))
  | some x =>
      obtain ⟨own, val⟩ := x
      obtain ⟨member, same⟩ := List.mem_filter.mp (List.mem_of_getLast? last)
      obtain rfl := of_decide_eq_true same
      exact ((gives _ _).mp member).symm

end whole

section files

/-- A configuration with an entry, and one that is taken away again. -/
def sampleCalls : List DictCall :=
  [.set "global".toList none, .set "global:pat".toList (some "100".toList),
    .set "global:network_id".toList (some "x = \"y\"".toList), .unset "global:pat".toList]

variable {d : Dict} {m : KeyMap} {before : Char}

private theorem load_of_gives (file : CString) {lines : List Text}
    {given : List (Text × Option Text)}
    {sect : Text} (byte : before ≠ '\\') (split : splitLines '\n' file.1 = (lines, []))
    (read : Gives readingStart lines given sect) (fits : KeysFit given)
    (gives : ∀ key val, (key, val) ∈ given ↔ m.lookup key = some val) :
    ∃ dict, iniparserLoad before (some file) = .done (some dict) [] ∧
      ∀ key dflt, dictionaryGet dict key dflt = mapGet m key dflt := by
  have lines_eq : fileLines file = lines := congrArg Prod.fst split
  have noted : (reading (fileLines file)).given = given := by
    rw [lines_eq]
    exact read.given
  have inside : Inside before (reading (fileLines file)) :=
    ⟨by rw [noted]; exact fits, fun _ => byte⟩
  obtain ⟨dict, log, loaded⟩ := exists_loaded before file (congrArg Prod.snd split)
    (by rw [lines_eq]; exact read.room) inside (by rw [lines_eq]; exact read.errors)
  obtain ⟨quiet, answers⟩ := loaded_gives loaded
  have silent : log = [] := by
    rw [quiet, lines_eq]
    exact read.log
  refine ⟨dict, silent ▸ loaded, ?_⟩
  intro key dflt
  have same : lastGiven key given = m.lookup key := lastGiven_eq_lookup gives key
  rw [answers, noted]
  cases found : m.lookup key with
  | none => simp only [givenGet, mapGet, same, found]
  | some val =>
      cases val with
      | none => simp only [givenGet, mapGet, same, found]
      | some text => simp only [givenGet, mapGet, same, found]

/-- A dictionary that is written to a file and loaded again answers as before, if its sections and
entries can be read back. -/
theorem dumped_loads_back (size : ℤ) (calls : List DictCall) (dumpable : Dumpable (mapAfter calls))
    (byte : before ≠ '\\') :
    ∃ d dict, ∃ file : CString, dictAfter size calls = some d ∧
      iniparserDumpIni (some d) = some file.1 ∧
      iniparserLoad before (some file) = .done (some dict) [] ∧
      ∀ key dflt, dictionaryGet dict key dflt = dictionaryGet d key dflt := by
  obtain ⟨d, reached, h, -⟩ := dictAfter_represents size calls
  obtain ⟨last, read⟩ := gives_dumpLines h dumpable
  have gives := mem_given h dumpable
  have fits := keysFit_given h dumpable
  by_cases nothing : sections d = []
  · rw [nothing, List.flatMap_nil] at gives fits
    have empty : Dict.entries d = [] := by
      refine List.eq_nil_iff_forall_not_mem.mpr ?_
      rintro ⟨key, val⟩ member
      exact absurd ((gives key val).mpr ((mem_entries h).mp member)) List.not_mem_nil
    have start : Gives readingStart [] [] [] := ⟨trivial, rfl, rfl, rfl, rfl, rfl⟩
    obtain ⟨dict, loaded, answers⟩ := load_of_gives ⟨[], List.not_mem_nil⟩ byte rfl start fits gives
    refine ⟨d, dict, ⟨[], List.not_mem_nil⟩, reached, ?_, loaded, ?_⟩
    · rw [iniparserDumpIni, iniparserGetnsec_eq, nothing, empty]
      rfl
    · intro key dflt
      rw [answers, h.get]
  · have plain := plain_dumpLines h dumpable
    have text : nul ∉ (dumpLines d).flatMap (· ++ ['\n']) := by
      intro member
      obtain ⟨line, own, there⟩ := List.mem_flatMap.mp member
      rcases List.mem_append.mp there with inner | ended
      · exact (plain line own).2 inner
      · exact absurd (List.mem_singleton.mp ended) (by decide)
    have split := Mptsd.Lib.Lines.splitLines_lines fun line member => (plain line member).1
    obtain ⟨dict, loaded, answers⟩ := load_of_gives ⟨_, text⟩ byte split read fits gives
    refine ⟨d, dict, ⟨_, text⟩, reached, ?_, loaded, ?_⟩
    · refine iniparserDumpIni_eq nothing fun sect member => ?_
      have := (sectionName_of_mem h dumpable member).room
      omega
    · intro key dflt
      rw [answers, h.get]

private theorem lookup_sampleCalls (key : Text) (val : Option Text)
    (found : (mapAfter sampleCalls).lookup key = some val) :
    key = "global".toList ∧ val = none ∨
      key = "global:network_id".toList ∧ val = some "x = \"y\"".toList := by
  have calls : mapAfter sampleCalls = (((((∅ : KeyMap).insert "global".toList none).insert
      "global:pat".toList (some "100".toList)).insert
      "global:network_id".toList (some "x = \"y\"".toList)).erase "global:pat".toList) := rfl
  rw [calls] at found
  by_cases erased : key = "global:pat".toList
  · rw [erased, Finmap.lookup_erase] at found
    cases found
  · rw [Finmap.lookup_erase_ne erased] at found
    by_cases network : key = "global:network_id".toList
    · rw [network, Finmap.lookup_insert] at found
      exact .inr ⟨network, (Option.some.inj found).symm⟩
    · rw [Finmap.lookup_insert_of_ne _ network, Finmap.lookup_insert_of_ne _ erased] at found
      by_cases sect : key = "global".toList
      · rw [sect, Finmap.lookup_insert] at found
        exact .inl ⟨sect, (Option.some.inj found).symm⟩
      · rw [Finmap.lookup_insert_of_ne _ sect] at found
        cases found

theorem dumped_loads_back_sample :
    ∃ d dict, ∃ file : CString, dictAfter 0 sampleCalls = some d ∧
      iniparserDumpIni (some d) = some file.1 ∧
      iniparserLoad 'x' (some file) = .done (some dict) [] ∧
      ∀ key dflt, dictionaryGet dict key dflt = dictionaryGet d key dflt := by
  refine dumped_loads_back 0 sampleCalls ⟨?_, ?_⟩ (by decide)
  · intro sect val found named
    rcases lookup_sampleCalls sect val found with ⟨rfl, rfl⟩ | ⟨rfl, rfl⟩
    · exact ⟨rfl, ⟨⟨by decide, by decide, stripped_of_all (by decide) (by decide), by decide⟩,
        by decide, by decide, by decide⟩⟩
    · exact absurd named (by decide)
  · intro key val found named
    rcases lookup_sampleCalls key val found with ⟨rfl, rfl⟩ | ⟨rfl, rfl⟩
    · exact absurd named (by decide)
    · refine ⟨"global".toList, "network_id".toList, _, rfl, rfl, by decide, ?_, ?_, by decide⟩
      · rw [Finmap.mem_iff]
        exact ⟨none, rfl⟩
      · exact ⟨⟨by decide, by decide, stripped_of_all (by decide) (by decide), by decide⟩,
          by decide, by decide, stripped_of_all (by decide) (by decide), by decide, by decide,
          by decide, by decide, by decide⟩

end files

end Mptsd.Inifile.Dump
