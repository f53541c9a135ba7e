/- Unit: Mptsd/Inifile/Line
   source: src/iniparser.c (strlwc, strstrip, iniparser_line)
   digest: One line of a configuration file: what the parser's five scans make of it, and what it
   says. -/

import Mathlib.Data.List.DropRight
import Mptsd.Inifile.Store
import Mptsd.Lib.Scanf
import Mptsd.Reload.Load

set_option autoImplicit false
set_option relaxedAutoImplicit false

namespace Mptsd.Inifile.Line

open Mptsd.Inifile.Store (Text)
open Mptsd.Lib.Scanf
open Mptsd.Reload.Load (isSpace)

/-- `ASCIILINESZ`. -/
def asciiLineSz : ℕ := 1024

def strlwc (s : Text) : Text := (s.take asciiLineSz).map Char.toLower

/-- Blanks at both ends are removed. -/
def strstrip (s : Text) : Text := (s.dropWhile isSpace).rdropWhile isSpace

/-- `line_status`, without the value that is never returned. -/
inductive LineStatus
  | lineError | lineEmpty | lineComment | lineSection | lineValue
  deriving DecidableEq

/-- The buffers of the caller. -/
structure Buffers where
  sect : Text
  key : Text
  value : Text
  deriving DecidableEq

/-- `%[^=]`. -/
def toEquals : Directive Char := .take (· != '=')

/-- A blank in a format. -/
def blanks : Directive Char := .skip isSpace

/-- `%[^=] = \"%[^\"]\"`. -/
def quotedFormat (quote : Char) : List (Directive Char) :=
  [toEquals, blanks, .one '=', blanks, .one quote, .take (· != quote), .one quote]

/-- `%[^=] = %[^;#]`. -/
def bareFormat : List (Directive Char) :=
  [toEquals, blanks, .one '=', blanks, .take fun c => c != ';' && c != '#']

/-- `%[^=] = %[;#]`. -/
def commentFormat : List (Directive Char) :=
  [toEquals, blanks, .one '=', blanks, .take fun c => c == ';' || c == '#']

/-- `%[^=] %[=]`. -/
def equalsFormat : List (Directive Char) := [toEquals, blanks, .take (· == '=')]

/-- `sscanf(line, format, key, value)`. A buffer without a conversion is left alone. -/
def sscanf (line : Text) (format : List (Directive Char)) (b : Buffers) : ℕ × Buffers :=
  match scan format line with
  | [] => (0, b)
  | [key] => (1, { b with key })
  | key :: value :: rest => (rest.length + 2, { b with key, value })

/-- `sscanf(..) == 2 || sscanf(..) == 2 || ..`. -/
def anyScan (line : Text) : List (List (Directive Char)) → Buffers → Bool × Buffers
  | [], b => (false, b)
  | format :: formats, b =>
      let scanned := sscanf line format b
      if scanned.1 = 2 then (true, scanned.2) else anyScan line formats scanned.2

/-- `sscanf` cannot handle empty quotes. -/
def unquoteEmpty (value : Text) : Text :=
  if value = ['"', '"'] ∨ value = ['\'', '\''] then [] else value

/-- `sscanf(line, "[%[^]]", section)`. -/
def scanSection (line sect : Text) : Text :=
  match scan [.one '[', .take (· != ']')] line with
  | [] => sect
  | name :: _ => name

/-- The scans for a line with a value, and what is done with their results. -/
def scanEntry (line : Text) (b : Buffers) : LineStatus × Buffers :=
  let usual := anyScan line [quotedFormat '"', quotedFormat '\'', bareFormat] b
  if usual.1 then
    (.lineValue, { usual.2 with
      key := strlwc (strstrip usual.2.key)
      value := unquoteEmpty (strstrip usual.2.value) })
  else
    let special := anyScan line [commentFormat, equalsFormat] usual.2
    if special.1 then
      (.lineValue, { special.2 with key := strlwc (strstrip special.2.key), value := [] })
    else (.lineError, special.2)

def iniparserLine (inputLine : Text) (b : Buffers) : LineStatus × Buffers :=
  let line := strstrip inputLine
  if line.length < 1 then (.lineEmpty, b)
  else if line.head? = some '#' then (.lineComment, b)
  else if line.head? = some '[' ∧ line.getLast? = some ']' then
    (.lineSection, { b with sect := strlwc (strstrip (scanSection line b.sect)) })
  else scanEntry line b

/-- What a line says. A section whose name is missing goes on with the last one. -/
inductive Statement
  | blank
  | header (name : Option Text)
  | entry (key value : Text)
  | malformed
  deriving DecidableEq

/-- The text of a value: what is between quotes, if there is something, and otherwise everything in
front of a comment. -/
def valueText (text : Text) : Text :=
  let bare := text.takeWhile fun c => c != ';' && c != '#'
  match text with
  | [] => bare
  | quote :: rest =>
      if quote = '"' ∨ quote = '\'' then
        match rest.takeWhile (· != quote) with
        | [] => bare
        | run => run
      else bare

/-- The value behind an equals sign. -/
def readValue (text : Text) : Text := unquoteEmpty (strstrip (valueText text))

/-- The name between brackets. -/
def readHeader (line : Text) : Option Text :=
  match line.tail.takeWhile (· != ']') with
  | [] => none
  | name => some (strlwc (strstrip name))

/-- A key and a value around the first equals sign. -/
def readEntry (line : Text) : Statement :=
  match line.takeWhile (· != '='), line.dropWhile (· != '=') with
  | c :: key, _ :: text =>
      .entry (strlwc (strstrip (c :: key))) (readValue (text.dropWhile isSpace))
  | _, _ => .malformed

def readLine (inputLine : Text) : Statement :=
  let line := strstrip inputLine
  if line = [] ∨ line.head? = some '#' then .blank
  else if line.head? = some '[' ∧ line.getLast? = some ']' then .header (readHeader line)
  else readEntry line

/-- The parser reports a statement and leaves it in the buffers. -/
def Reports (b : Buffers) (result : LineStatus × Buffers) : Statement → Prop
  | .blank => (result.1 = .lineEmpty ∨ result.1 = .lineComment) ∧ result.2 = b
  | .header name =>
      result = (.lineSection, { b with sect := name.getD (strlwc (strstrip b.sect)) })
  | .entry key value => result = (.lineValue, { b with key, value })
  | .malformed => result.1 = .lineError ∧ result.2.sect = b.sect

section scans

variable {line key text : Text} {b : Buffers}

private theorem scan_key {format : List (Directive Char)} (nonempty : key ≠ [])
    (plain : ∀ c ∈ key, (c != '=') = true) :
    scan (toEquals :: blanks :: .one '=' :: blanks :: format) (key ++ '=' :: text) =
      key :: scan format (text.dropWhile isSpace) := by
  rw [toEquals, scan_take nonempty plain (by simp)]
  simp [blanks, isSpace]

private theorem scan_quoted {quote : Char} :
    scan [.one quote, .take (· != quote), .one quote] text =
      match text with
      | [] => []
      | c :: rest =>
          if c = quote then
            match rest.takeWhile (· != quote) with
            | [] => []
            | run => [run]
          else [] := by
  cases text with
  | nil => rfl
  | cons c rest =>
      dsimp only
      split_ifs with same
      · subst same
        rw [scan_one_self, scan]
        cases rest.takeWhile (· != c) with
        | nil => rfl
        | cons d run =>
            cases rest.dropWhile (· != c) with
            | nil => rfl
            | cons e more =>
                rw [scan]
                split_ifs <;> rfl
      · exact scan_one_ne same

variable {format : List (Directive Char)} {formats : List (List (Directive Char))} {value : Text}

private theorem anyScan_both (converted : scan format line = [key, value]) :
    anyScan line (format :: formats) b = (true, { b with key, value }) := by
  simp [anyScan, sscanf, converted]

private theorem anyScan_key (converted : scan format line = [key]) :
    anyScan line (format :: formats) b = anyScan line formats { b with key } := by
  simp [anyScan, sscanf, converted]

private theorem anyScan_none (converted : scan format line = []) :
    anyScan line (format :: formats) b = anyScan line formats b := by
  simp [anyScan, sscanf, converted]

end scans

section usual

variable {key : Text} (text : Text) (b : Buffers)

/-- Everything in front of a comment. -/
def bareValue (text : Text) : Option Text :=
  match text.takeWhile fun c => c != ';' && c != '#' with
  | [] => none
  | run => some run

/-- What is between quotes of one kind. -/
def quotedValue (quote : Char) : Text → Option Text
  | [] => none
  | c :: rest =>
      if c = quote then
        match rest.takeWhile (· != quote) with
        | [] => none
        | run => some run
      else none

/-- The value that the three usual scans find. -/
def usualValue (text : Text) : Option Text :=
  ((quotedValue '"' text).or (quotedValue '\'' text)).or (bareValue text)

private theorem anyScan_value {format : List (Directive Char)}
    {formats : List (List (Directive Char))}
    {line : Text} {found : Option Text} (converted : scan format line = key :: found.toList) :
    anyScan line (format :: formats) b =
      found.elim (anyScan line formats { b with key })
        fun value => (true, { b with key, value }) := by
  cases found with
  | none => exact anyScan_key converted
  | some value => exact anyScan_both converted

private theorem scan_quotedValue (quote : Char) :
    scan [.one quote, .take (· != quote), .one quote] text = (quotedValue quote text).toList := by
  rw [scan_quoted]
  cases text with
  | nil => rfl
  | cons c rest =>
      dsimp only [quotedValue]
      split_ifs
      · cases rest.takeWhile (· != quote) <;> rfl
      · rfl

private theorem scan_bareValue :
    scan [.take fun c => c != ';' && c != '#'] text = (bareValue text).toList := by
  rw [scan, bareValue]
  cases text.takeWhile fun c => c != ';' && c != '#' <;> rfl

private theorem anyScan_usual (nonempty : key ≠ []) (plain : ∀ c ∈ key, (c != '=') = true) :
    anyScan (key ++ '=' :: text) [quotedFormat '"', quotedFormat '\'', bareFormat] b =
      (usualValue (text.dropWhile isSpace)).elim (false, { b with key })
        fun value => (true, { b with key, value }) := by
  have quoted : ∀ quote, scan (quotedFormat quote) (key ++ '=' :: text) =
      key :: (quotedValue quote (text.dropWhile isSpace)).toList := by
    intro quote
    rw [quotedFormat, scan_key nonempty plain, scan_quotedValue]
  have bare : scan bareFormat (key ++ '=' :: text) =
      key :: (bareValue (text.dropWhile isSpace)).toList := by
    rw [bareFormat, scan_key nonempty plain, scan_bareValue]
  rw [usualValue, anyScan_value b (quoted '"')]
  cases quotedValue '"' (text.dropWhile isSpace) with
  | some value => rfl
  | none =>
      rw [Option.none_or, Option.elim_none, anyScan_value _ (quoted '\'')]
      cases quotedValue '\'' (text.dropWhile isSpace) with
      | some value => rfl
      | none =>
          rw [Option.none_or, Option.elim_none, anyScan_value _ bare]
          cases bareValue (text.dropWhile isSpace) <;> rfl

private theorem anyScan_special (nonempty : key ≠ []) (plain : ∀ c ∈ key, (c != '=') = true) :
    ∃ value, anyScan (key ++ '=' :: text) [commentFormat, equalsFormat] b =
      (true, { b with key, value }) := by
  have comment : ∃ found : Option Text, scan commentFormat (key ++ '=' :: text) =
      key :: found.toList := by
    rw [commentFormat, scan_key nonempty plain, scan]
    cases (text.dropWhile isSpace).takeWhile fun c => c == ';' || c == '#' with
    | nil => exact ⟨none, rfl⟩
    | cons c run => exact ⟨some (c :: run), rfl⟩
  have equals : ∃ run, scan equalsFormat (key ++ '=' :: text) = [key, run] := by
    rw [equalsFormat, toEquals, scan_take nonempty plain (by simp)]
    simp [blanks, isSpace, scan]
  obtain ⟨found, comment⟩ := comment
  obtain ⟨run, equals⟩ := equals
  rw [anyScan_value b comment]
  cases found with
  | some value => exact ⟨value, rfl⟩
  | none => exact ⟨run, anyScan_both equals⟩

private theorem valueText_eq : valueText text = (usualValue text).getD [] := by
  have bare : (bareValue text).getD [] = text.takeWhile fun c => c != ';' && c != '#' := by
    rw [bareValue]
    cases text.takeWhile fun c => c != ';' && c != '#' <;> rfl
  have orBare : ∀ found : Option Text, (found.or (bareValue text)).getD [] =
      found.getD (text.takeWhile fun c => c != ';' && c != '#') := by
    intro found
    cases found with
    | none => exact bare
    | some value => rfl
  rw [usualValue, orBare]
  cases text with
  | nil => rfl
  | cons quote rest =>
      dsimp only [valueText, quotedValue]
      by_cases double : quote = '"'
      · subst double
        rw [if_pos (.inl rfl), if_pos rfl, if_neg (by decide)]
        cases rest.takeWhile (· != '"') <;> rfl
      · by_cases single : quote = '\''
        · subst single
          rw [if_pos (.inr rfl), if_neg (by decide), if_pos rfl]
          cases rest.takeWhile (· != '\'') <;> rfl
        · rw [if_neg (by simp [double, single]), if_neg double, if_neg single]
          rfl

end usual

section malformed

variable {line : Text} {b : Buffers} {formats : List (List (Directive Char))}

private theorem anyScan_short (short : ∀ format ∈ formats, (scan format line).length ≤ 1) :
    (anyScan line formats b).1 = false ∧ (anyScan line formats b).2.sect = b.sect := by
  induction formats generalizing b with
  | nil => exact ⟨rfl, rfl⟩
  | cons format formats ih =>
      rw [List.forall_mem_cons] at short
      obtain ⟨first, later⟩ := short
      match converted : scan format line with
      | [] =>
          rw [anyScan_none converted]
          exact ih later
      | [key] =>
          rw [anyScan_key converted]
          exact ih later
      | key :: value :: rest =>
          rw [converted] at first
          exact absurd first (by simp)

private theorem scan_keyless {format : List (Directive Char)} (ends : scan format [] = [])
    (keyless : line.takeWhile (· != '=') = [] ∨ line.dropWhile (· != '=') = []) :
    (scan (toEquals :: format) line).length ≤ 1 := by
  rw [toEquals, scan]
  rcases keyless with front | back
  · rw [front]
    exact Nat.zero_le 1
  · rw [back, ends]
    cases line.takeWhile (· != '=') <;> simp

end malformed

private theorem scanSection_eq {line : Text} (sect : Text) (bracket : line.head? = some '[') :
    strlwc (strstrip (scanSection line sect)) =
      (readHeader line).getD (strlwc (strstrip sect)) := by
  obtain ⟨rest, rfl⟩ := List.head?_eq_some_iff.mp bracket
  rw [scanSection, readHeader, scan_one_self, scan, List.tail_cons]
  cases rest.takeWhile (· != ']') <;> rfl

private theorem scanEntry_malformed {line : Text} (b : Buffers)
    (keyless : line.takeWhile (· != '=') = [] ∨ line.dropWhile (· != '=') = []) :
    Reports b (scanEntry line b) .malformed := by
  have usual : ∀ format ∈ [quotedFormat '"', quotedFormat '\'', bareFormat],
      (scan format line).length ≤ 1 := by
    simp only [List.forall_mem_cons]
    exact ⟨scan_keyless rfl keyless, scan_keyless rfl keyless, scan_keyless rfl keyless, by simp⟩
  have special : ∀ format ∈ [commentFormat, equalsFormat], (scan format line).length ≤ 1 := by
    simp only [List.forall_mem_cons]
    exact ⟨scan_keyless rfl keyless, scan_keyless rfl keyless, by simp⟩
  obtain ⟨first, same⟩ := anyScan_short (b := b) usual
  obtain ⟨second, kept⟩ := anyScan_short
    (b := (anyScan line [quotedFormat '"', quotedFormat '\'', bareFormat] b).2) special
  rw [scanEntry]
  dsimp only
  rw [first, second, if_neg Bool.false_ne_true, if_neg Bool.false_ne_true]
  exact ⟨rfl, kept.trans same⟩

private theorem scanEntry_entry {key text : Text} (b : Buffers) (nonempty : key ≠ [])
    (plain : ∀ c ∈ key, (c != '=') = true) :
    scanEntry (key ++ '=' :: text) b =
      (.lineValue, { b with
        key := strlwc (strstrip key)
        value := readValue (text.dropWhile isSpace) }) := by
  rw [scanEntry, anyScan_usual text b nonempty plain, readValue, valueText_eq]
  cases usualValue (text.dropWhile isSpace) with
  | some value => rfl
  | none =>
      obtain ⟨value, special⟩ := anyScan_special text { b with key } nonempty plain
      rw [Option.elim_none]
      dsimp only
      rw [special, if_neg Bool.false_ne_true, if_pos rfl]
      rfl

private theorem scanEntry_reports (line : Text) (b : Buffers) :
    Reports b (scanEntry line b) (readEntry line) := by
  have whole : line.takeWhile (· != '=') ++ line.dropWhile (· != '=') = line :=
    List.takeWhile_append_dropWhile
  have plain : ∀ c ∈ line.takeWhile (· != '='), (c != '=') = true := by
    intro c member
    exact List.mem_takeWhile_imp (p := (· != '=')) member
  rw [readEntry]
  cases front : line.takeWhile (· != '=') with
  | nil => exact scanEntry_malformed b (.inl front)
  | cons c key =>
      cases back : line.dropWhile (· != '=') with
      | nil => exact scanEntry_malformed b (.inr back)
      | cons e text =>
          have stop := List.head?_dropWhile_not (· != '=') line
          rw [back, List.head?_cons] at stop
          obtain rfl : e = '=' := by simpa using stop
          rw [front, back] at whole
          rw [front] at plain
          rw [← whole, scanEntry_entry b (List.cons_ne_nil c key) plain]
          rfl

theorem iniparserLine_reports (inputLine : Text) (b : Buffers) :
    Reports b (iniparserLine inputLine b) (readLine inputLine) := by
  rw [readLine, iniparserLine]
  generalize strstrip inputLine = line
  by_cases nothing : line = []
  · subst nothing
    rw [if_pos (by simp), if_pos (.inl rfl)]
    exact ⟨.inl rfl, rfl⟩
  have nonempty : ¬ line.length < 1 := by
    rw [Nat.lt_one_iff, List.length_eq_zero_iff]
    exact nothing
  rw [if_neg nonempty]
  by_cases comment : line.head? = some '#'
  · rw [if_pos comment, if_pos (.inr comment)]
    exact ⟨.inr rfl, rfl⟩
  rw [if_neg comment, if_neg (not_or.mpr ⟨nothing, comment⟩)]
  by_cases brackets : line.head? = some '[' ∧ line.getLast? = some ']'
  · rw [if_pos brackets, if_pos brackets, scanSection_eq b.sect brackets.1]
    rfl
  · rw [if_neg brackets, if_neg brackets]
    exact scanEntry_reports line b

end Mptsd.Inifile.Line
