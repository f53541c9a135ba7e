/- Unit: Mptsd/Inifile/Load
   source: src/iniparser.c (iniparser_load)
   digest: The parser over a whole file, and what the file says: continued lines, sections, the
   last value of every key, and the errors that count. -/

import Mptsd.Inifile.Line
import Mptsd.Lib.Lines
import Mptsd.Lib.Strings

set_option autoImplicit false
set_option relaxedAutoImplicit false

namespace Mptsd.Inifile.Load

open Mptsd.Inifile.Store
open Mptsd.Inifile.Line
open Mptsd.Lib.Lines (splitLines)
open Mptsd.Lib.Strings (CString)
open Mptsd.Reload.Load (isSpace)

/-- What is printed to `stderr`, less the name of the file. -/
inductive Report
  | cannotOpen
  | inputLineTooLong (lineno : ℕ)
  | syntaxError (lineno : ℕ) (line : Text)
  deriving DecidableEq

/-- The loop of the parser: `line` is the part of a continued line in front of `last`, and
`inFront` says that `last` is -1. -/
structure Loader where
  line : Text
  inFront : Bool
  buffers : Buffers
  dict : Dict
  lineno : ℕ
  errs : ℕ
  log : List Report

/-- A turn of the loop; `outside` stands for a write outside the arrays. -/
inductive Pass
  | next (w : Loader)
  | tooLong (log : List Report)
  | outside

inductive LoadResult
  | done (dict : Option Dict) (log : List Report)
  | outside

/-- `fgets(line+last, size, in)`, where at most `size` less one characters are read. -/
def fgets (size : ℕ) (file : Text) : Option (Text × Text) :=
  match file with
  | [] => none
  | _ => some (Mptsd.Lib.Lines.readLine '\n' (size - 1) file)

/-- The end of a line. -/
def trimEnd (line : Text) : Text := line.rdropWhile fun c => c = '\n' || isSpace c

/-- `sprintf(tmp, "%s:%s", section, key)`. -/
def entryKey (sect key : Text) : Text := sect ++ ':' :: key

/-- The `switch` over what the line is. -/
def switchLine (w : Loader) (line : Text) : Pass :=
  let scanned := iniparserLine line w.buffers
  let w := { w with line := [], buffers := scanned.2 }
  match scanned.1 with
  | .lineEmpty | .lineComment => .next w
  | .lineSection =>
      match dictionarySet w.dict w.buffers.sect none with
      | none => .outside
      | some dict => .next { w with dict, errs := 0 }
  | .lineValue =>
      let tmp := entryKey w.buffers.sect w.buffers.key
      if asciiLineSz < tmp.length then .outside
      else
        match dictionarySet w.dict tmp (some w.buffers.value) with
        | none => .outside
        | some dict => .next { w with dict, errs := 0 }
  | .lineError =>
      .next { w with errs := w.errs + 1, log := w.log ++ [.syntaxError w.lineno line] }

/-- The body of the loop. When nothing is left of a line, the test for a continuation reads the
byte in front of the buffer, and a backslash there makes the next line begin at that byte. -/
def passLine (before : Char) (w : Loader) (chunk : Text) : Pass :=
  let w := { w with lineno := w.lineno + 1 }
  let line := w.line ++ chunk
  if line.getLast? ≠ some '\n' then .tooLong (w.log ++ [.inputLineTooLong w.lineno])
  else
    match (trimEnd line).getLast? with
    | none =>
        if before = '\\' then .next { w with line := [], inFront := true } else switchLine w []
    | some c =>
        if c = '\\' then .next { w with line := (trimEnd line).dropLast }
        else switchLine w (trimEnd line)

/-- After the loop. -/
def finish (w : Loader) : LoadResult := .done (if w.errs = 0 then some w.dict else none) w.log

def loadLoop (before : Char) : ℕ → Loader → Text → LoadResult
  | 0, w, _ => finish w
  | fuel + 1, w, file =>
      match fgets (asciiLineSz - w.line.length) file with
      | none => finish w
      | some (chunk, file) =>
          if w.inFront then .outside
          else
            match passLine before w chunk with
            | .next w => loadLoop before fuel w file
            | .tooLong log => .done none log
            | .outside => .outside

def loaderNew : Loader where
  line := []
  inFront := false
  buffers := ⟨[], [], []⟩
  dict := dictionaryNew 0
  lineno := 0
  errs := 0
  log := []

/-- `before` is what stands in memory in front of the array `line`. Every turn takes something off
the file. -/
def iniparserLoad (before : Char) : Option CString → LoadResult
  | none => .done none [.cannotOpen]
  | some file => loadLoop before file.1.length loaderNew file.1

/-- What a reader has understood of a file after some of its lines: what is continued, the section,
the keys in the order they were given, the errors since the last of them, whether a line was blank
and another one followed it, and what there was to complain about. -/
structure Reading where
  lineno : ℕ
  pending : Text
  sect : Text
  given : List (Text × Option Text)
  errors : ℕ
  blank : Bool
  followed : Bool
  log : List Report

def readingStart : Reading := ⟨0, [], [], [], 0, false, false, []⟩

/-- A complete line. -/
def Reading.take (r : Reading) (line : Text) : Reading :=
  match readLine line with
  | .blank => { r with pending := [] }
  | .header name =>
      let sect := name.getD (strlwc (strstrip r.sect))
      { r with pending := [], sect, given := r.given ++ [(sect, none)], errors := 0 }
  | .entry key value =>
      { r with
        pending := []
        given := r.given ++ [(entryKey r.sect key, some value)]
        errors := 0 }
  | .malformed =>
      { r with
        pending := []
        errors := r.errors + 1
        log := r.log ++ [.syntaxError r.lineno line] }

/-- One more line of the file. A backslash at its end continues it. -/
def readStep (r : Reading) (line : Text) : Reading :=
  let r := { r with lineno := r.lineno + 1, followed := r.blank }
  let line := trimEnd (r.pending ++ line)
  match line.getLast? with
  | none => { r with pending := [], blank := true }
  | some c => if c = '\\' then { r with pending := line.dropLast } else r.take line

def reading (lines : List Text) : Reading := lines.foldl readStep readingStart

/-- The line has room in the buffer, behind what it continues. -/
def HasRoom (r : Reading) (line : Text) : Prop := r.pending.length + line.length + 2 ≤ asciiLineSz

instance (r : Reading) (line : Text) : Decidable (HasRoom r line) :=
  inferInstanceAs (Decidable (_ ≤ _))

/-- No key with a value is longer than its buffer. -/
def KeysFit (given : List (Text × Option Text)) : Prop :=
  ∀ x ∈ given, x.2.isSome = true → x.1.length ≤ asciiLineSz

instance (given : List (Text × Option Text)) : Decidable (KeysFit given) :=
  inferInstanceAs (Decidable (∀ x ∈ given, x.2.isSome = true → x.1.length ≤ asciiLineSz))

/-- The keys fit, and no line follows a blank one if the byte in front of the buffer looks like a
continuation. -/
def Inside (before : Char) (r : Reading) : Prop :=
  KeysFit r.given ∧ (r.followed = true → before ≠ '\\')

instance (before : Char) (r : Reading) : Decidable (Inside before r) :=
  inferInstanceAs (Decidable (_ ∧ _))

/-- A blank line makes the next one begin in front of the buffer. -/
def InFront (before : Char) (r : Reading) : Prop := r.blank = true ∧ before = '\\'

instance (before : Char) (r : Reading) : Decidable (InFront before r) :=
  inferInstanceAs (Decidable (_ ∧ _))

/-- The keys of the file as calls on its dictionary. -/
def givenCalls (given : List (Text × Option Text)) : List DictCall :=
  given.map fun x => .set x.1 x.2

/-- The parser is where the reader is. -/
structure Follows (before : Char) (r : Reading) (w : Loader) : Prop where
  line : w.line = r.pending
  inFront : w.inFront = true ↔ InFront before r
  sect : w.buffers.sect = r.sect
  errs : w.errs = r.errors
  lineno : w.lineno = r.lineno
  log : w.log = r.log
  dict : Represents w.dict (mapAfter (givenCalls r.given))

section step

variable {before : Char} {r : Reading} {w : Loader} {line : Text}

private theorem mapAfter_given (given : List (Text × Option Text)) (key : Text)
    (val : Option Text) :
    mapAfter (givenCalls (given ++ [(key, val)])) =
      (mapAfter (givenCalls given)).insert key val := by
  rw [givenCalls, List.map_append, List.map_singleton, mapAfter_concat]
  rfl

theorem Follows.set (follows : Follows before r w) (key : Text) (val : Option Text) :
    ∃ dict, dictionarySet w.dict key val = some dict ∧
      Represents dict (mapAfter (givenCalls (r.given ++ [(key, val)]))) := by
  obtain ⟨dict, stored, represents, -⟩ := follows.dict.set key val
  exact ⟨dict, stored, mapAfter_given r.given key val ▸ represents⟩

private theorem keysFit_concat {given : List (Text × Option Text)} {key : Text}
    {val : Option Text} :
    KeysFit (given ++ [(key, val)]) ↔
      KeysFit given ∧ (val.isSome = true → key.length ≤ asciiLineSz) := by
  rw [KeysFit, List.forall_mem_append, List.forall_mem_singleton]
  rfl

private theorem switchLine_follows (line : Text) (follows : Follows before r w)
    (fits : KeysFit r.given) :
    (KeysFit (r.take line).given ∧
        ∃ w', switchLine w line = .next w' ∧ Follows before (r.take line) w') ∨
      ¬ KeysFit (r.take line).given ∧ switchLine w line = .outside := by
  have reported := iniparserLine_reports line w.buffers
  rw [Reading.take]
  cases said : readLine line with
  | blank =>
      rw [said] at reported
      obtain ⟨status, same⟩ := reported
      refine .inl ⟨fits, { w with line := [] }, ?_, ?_⟩
      · rcases status with status | status <;> rw [switchLine, status, same]
      · exact ⟨rfl, follows.inFront, follows.sect, follows.errs, follows.lineno, follows.log,
          follows.dict⟩
  | header name =>
      rw [said, Reports] at reported
      obtain ⟨dict, stored, represents⟩ := follows.set
        (name.getD (strlwc (strstrip r.sect))) none
      rw [follows.sect] at reported
      refine .inl ⟨keysFit_concat.mpr ⟨fits, by simp⟩,
        { w with
          line := []
          buffers := { w.buffers with sect := name.getD (strlwc (strstrip r.sect)) }
          dict
          errs := 0 }, ?_, ?_⟩
      · simp only [switchLine, reported, stored]
      · exact ⟨rfl, follows.inFront, rfl, rfl, follows.lineno, follows.log, represents⟩
  | entry key value =>
      rw [said, Reports] at reported
      by_cases room : (entryKey r.sect key).length ≤ asciiLineSz
      · obtain ⟨dict, stored, represents⟩ := follows.set (entryKey r.sect key) (some value)
        refine .inl ⟨keysFit_concat.mpr ⟨fits, fun _ => room⟩,
          { w with line := [], buffers := { w.buffers with key, value }, dict, errs := 0 }, ?_, ?_⟩
        · simp only [switchLine, reported, follows.sect, if_neg (not_lt.mpr room), stored]
        · exact ⟨rfl, follows.inFront, follows.sect, rfl, follows.lineno, follows.log, represents⟩
      · refine .inr ⟨fun all => room ((keysFit_concat.mp all).2 rfl), ?_⟩
        simp only [switchLine, reported, follows.sect, if_pos (not_le.mp room)]
  | malformed =>
      rw [said] at reported
      obtain ⟨status, same⟩ := reported
      refine .inl ⟨fits, { w with
        line := []
        buffers := (iniparserLine line w.buffers).2
        errs := w.errs + 1
        log := w.log ++ [.syntaxError w.lineno line] }, ?_, ?_⟩
      · simp only [switchLine, status]
      · refine ⟨rfl, follows.inFront, same.trans follows.sect, ?_, follows.lineno, ?_,
          follows.dict⟩
        · dsimp only
          rw [follows.errs]
        · dsimp only
          rw [follows.log, follows.lineno]

private theorem trimEnd_newline (line : Text) : trimEnd (line ++ ['\n']) = trimEnd line :=
  List.rdropWhile_concat_pos _ _ _ rfl

private theorem passLine_follows (line : Text) (follows : Follows before r w)
    (fits : KeysFit r.given)
    (within : ¬ InFront before r) :
    (KeysFit (readStep r line).given ∧ ∃ w', passLine before w (line ++ ['\n']) = .next w' ∧
        Follows before (readStep r line) w') ∨
      ¬ KeysFit (readStep r line).given ∧ passLine before w (line ++ ['\n']) = .outside := by
  have counted : Follows before { r with lineno := r.lineno + 1, followed := r.blank }
      { w with lineno := w.lineno + 1 } :=
    ⟨follows.line, follows.inFront, follows.sect, follows.errs, by rw [follows.lineno],
      follows.log, follows.dict⟩
  rw [passLine, readStep]
  dsimp only
  rw [← List.append_assoc, follows.line, if_neg (by simp), trimEnd_newline]
  cases last : (trimEnd (r.pending ++ line)).getLast? with
  | none =>
      dsimp only
      refine .inl ⟨fits, ?_⟩
      by_cases byte : before = '\\'
      · rw [if_pos byte]
        refine ⟨_, rfl, rfl, ?_, counted.sect, counted.errs, counted.lineno, counted.log,
          counted.dict⟩
        exact iff_of_true rfl ⟨rfl, byte⟩
      · rw [if_neg byte]
        have empty : readLine [] = .blank := rfl
        rcases switchLine_follows [] counted fits with ⟨-, w', next, after⟩ | unfit
        · rw [Reading.take, empty] at after
          refine ⟨w', next, after.line, ?_, after.sect, after.errs, after.lineno, after.log,
            after.dict⟩
          exact iff_of_false (mt after.inFront.mp within) fun both => byte both.2
        · rw [Reading.take, empty] at unfit
          exact absurd fits unfit.1
  | some c =>
      dsimp only
      split_ifs with continued
      · refine .inl ⟨fits, _, rfl, ?_⟩
        exact ⟨rfl, counted.inFront, counted.sect, counted.errs, counted.lineno, counted.log,
          counted.dict⟩
      · have switched := switchLine_follows (trimEnd (r.pending ++ line)) counted fits
        exact switched

end step

section loop

variable {before : Char} {r : Reading} {w : Loader} {lines : List Text} {tail : Text}

/-- What becomes of the file: the reader gets to its end, a line has no room or no end, or the
parser goes outside. -/
inductive Verdict
  | read (r : Reading)
  | tooLong (r : Reading)
  | outside

/-- The lines one after the other, up to the first that has no room or leads outside. -/
def verdict (before : Char) (tail : Text) : Reading → List Text → Verdict
  | r, [] =>
      if tail = [] then .read r
      else if InFront before r then .outside
      else .tooLong r
  | r, line :: lines =>
      if InFront before r then .outside
      else if HasRoom r line then
        if KeysFit (readStep r line).given then verdict before tail (readStep r line) lines
        else .outside
      else .tooLong r

/-- The loop over a file ends as the reader does. -/
def EndsAs (before : Char) (result : LoadResult) : Verdict → Prop
  | .read r => ∃ w, Follows before r w ∧ result = finish w
  | .tooLong r => result = .done none (r.log ++ [.inputLineTooLong (r.lineno + 1)])
  | .outside => result = .outside

private theorem fgets_of_ne_nil {size : ℕ} {file : Text} (nonempty : file ≠ []) :
    fgets size file = some (Mptsd.Lib.Lines.readLine '\n' (size - 1) file) := by
  cases file with
  | nil => exact absurd rfl nonempty
  | cons c file => rfl

private theorem loadLoop_inFront {fuel : ℕ} {file : Text} (follows : Follows before r w)
    (out : InFront before r) (nonempty : file ≠ []) (more : fuel ≠ 0) :
    loadLoop before fuel w file = .outside := by
  obtain ⟨fuel, rfl⟩ := Nat.exists_eq_succ_of_ne_zero more
  rw [loadLoop, fgets_of_ne_nil nonempty]
  exact if_pos (follows.inFront.mpr out)

private theorem loadLoop_line {fuel : ℕ} {line file : Text} (follows : Follows before r w)
    (within : ¬ InFront before r) (plain : '\n' ∉ line) (room : HasRoom r line) :
    loadLoop before (fuel + 1) w (line ++ '\n' :: file) =
      match passLine before w (line ++ ['\n']) with
      | .next w => loadLoop before fuel w file
      | .tooLong log => .done none log
      | .outside => .outside := by
  rw [HasRoom] at room
  rw [loadLoop, fgets_of_ne_nil (by simp), follows.line,
    Mptsd.Lib.Lines.readLine_line plain (by omega)]
  exact if_neg (mt follows.inFront.mp within)

private theorem passLine_tooLong {chunk : Text} (follows : Follows before r w)
    (nonempty : chunk ≠ [])
    (plain : '\n' ∉ chunk) :
    passLine before w chunk = .tooLong (r.log ++ [.inputLineTooLong (r.lineno + 1)]) := by
  have last : (w.line ++ chunk).getLast? ≠ some '\n' := by
    rw [List.getLast?_append_of_ne_nil _ nonempty]
    intro ended
    exact plain (List.mem_of_getLast? ended)
  rw [passLine, if_pos last, follows.log, follows.lineno]

private theorem loadLoop_tooLong {fuel : ℕ} {file : Text} (follows : Follows before r w)
    (within : ¬ InFront before r) (short : r.pending.length + 3 ≤ asciiLineSz)
    (nonempty : file ≠ []) (more : fuel ≠ 0)
    (plain : '\n' ∉ file.take (asciiLineSz - r.pending.length - 1)) :
    loadLoop before fuel w file =
      .done none (r.log ++ [.inputLineTooLong (r.lineno + 1)]) := by
  obtain ⟨fuel, rfl⟩ := Nat.exists_eq_succ_of_ne_zero more
  have some : file.take (asciiLineSz - r.pending.length - 1) ≠ [] := by
    rw [Ne, List.take_eq_nil_iff, not_or]
    exact ⟨by omega, nonempty⟩
  rw [loadLoop, fgets_of_ne_nil nonempty, follows.line, Mptsd.Lib.Lines.readLine_plain plain]
  dsimp only
  rw [if_neg (mt follows.inFront.mp within), passLine_tooLong follows some plain]

private theorem take_frame (r : Reading) (line : Text) :
    (r.take line).pending = [] ∧ (r.take line).blank = r.blank ∧
      (r.take line).followed = r.followed := by
  rw [Reading.take]
  cases readLine line <;> exact ⟨rfl, rfl, rfl⟩

private theorem readStep_cases (r : Reading) (line : Text) :
    let counted := { r with lineno := r.lineno + 1, followed := r.blank }
    readStep r line = { counted with pending := [], blank := true } ∨
      trimEnd (r.pending ++ line) ≠ [] ∧
        readStep r line = { counted with pending := (trimEnd (r.pending ++ line)).dropLast } ∨
      readStep r line = counted.take (trimEnd (r.pending ++ line)) := by
  rw [readStep]
  dsimp only
  cases last : (trimEnd (r.pending ++ line)).getLast? with
  | none => exact .inl rfl
  | some c =>
      have nonempty : trimEnd (r.pending ++ line) ≠ [] := by
        intro nil
        rw [nil] at last
        cases last
      dsimp only
      split_ifs
      · exact .inr (.inl ⟨nonempty, rfl⟩)
      · exact .inr (.inr rfl)

private theorem length_pending_readStep {line : Text} (room : HasRoom r line) :
    (readStep r line).pending.length + 3 ≤ asciiLineSz := by
  have trimmed : (trimEnd (r.pending ++ line)).length ≤ r.pending.length + line.length := by
    rw [← List.length_append]
    exact (List.rdropWhile_prefix _ _).length_le
  rw [HasRoom] at room
  rcases readStep_cases r line with blank | ⟨nonempty, continued⟩ | complete
  · rw [blank]
    exact Nat.le_of_ble_eq_true rfl
  · have := List.length_pos_iff.mpr nonempty
    rw [continued, List.length_dropLast]
    omega
  · rw [complete, (take_frame _ _).1]
    exact Nat.le_of_ble_eq_true rfl

private theorem loadLoop_endsAs {fuel : ℕ} (follows : Follows before r w) (fits : KeysFit r.given)
    (short : r.pending.length + 3 ≤ asciiLineSz) (plain : ∀ line ∈ lines, '\n' ∉ line)
    (plain_tail : '\n' ∉ tail)
    (enough : (lines.flatMap (· ++ ['\n']) ++ tail).length ≤ fuel) :
    EndsAs before (loadLoop before fuel w (lines.flatMap (· ++ ['\n']) ++ tail))
      (verdict before tail r lines) := by
  induction lines generalizing r w fuel with
  | nil =>
      rw [List.flatMap_nil, List.nil_append] at enough ⊢
      rw [verdict]
      split_ifs with ended out
      · subst ended
        refine ⟨w, follows, ?_⟩
        cases fuel <;> rfl
      · have some := List.length_pos_iff.mpr ended
        exact loadLoop_inFront follows out ended (by omega)
      · have some := List.length_pos_iff.mpr ended
        refine loadLoop_tooLong follows out short ended (by omega) ?_
        exact fun member => plain_tail (List.mem_of_mem_take member)
  | cons line lines ih =>
      rw [List.forall_mem_cons] at plain
      have file : (line :: lines).flatMap (· ++ ['\n']) ++ tail =
          line ++ '\n' :: (lines.flatMap (· ++ ['\n']) ++ tail) := by
        simp
      rw [file] at enough ⊢
      rw [List.length_append, List.length_cons] at enough
      obtain ⟨fuel, rfl⟩ := Nat.exists_eq_succ_of_ne_zero (show fuel ≠ 0 by omega)
      rw [verdict]
      split_ifs with out room fits'
      · exact loadLoop_inFront follows out (by simp) (by omega)
      · rcases passLine_follows line follows fits out with ⟨-, w', next, after⟩ | unfit
        · rw [loadLoop_line follows out plain.1 room, next]
          exact ih after fits' (length_pending_readStep room) plain.2 (by omega)
        · exact absurd fits' unfit.1
      · rcases passLine_follows line follows fits out with fit | ⟨-, outside⟩
        · exact absurd fit.1 fits'
        · rw [loadLoop_line follows out plain.1 room, outside]
          rfl
      · rw [HasRoom] at room
        refine loadLoop_tooLong follows out short (by simp) (by omega) ?_
        rw [List.take_append_of_le_length (by omega)]
        exact fun member => plain.1 (List.mem_of_mem_take member)

end loop

section file

variable {before : Char} {r : Reading} {lines : List Text} {tail : Text}

/-- Every line has room. -/
def AllRoom (r : Reading) : List Text → Prop
  | [] => True
  | line :: lines => HasRoom r line ∧ AllRoom (readStep r line) lines

instance decidableAllRoom : (r : Reading) → (lines : List Text) → Decidable (AllRoom r lines)
  | _, [] => isTrue trivial
  | r, line :: lines =>
      have := decidableAllRoom (readStep r line) lines
      inferInstanceAs (Decidable (_ ∧ _))

private theorem keysFit_of_take {line : Text} (fits : KeysFit (r.take line).given) :
    KeysFit r.given := by
  rw [Reading.take] at fits
  cases said : readLine line with
  | blank => rwa [said] at fits
  | header name =>
      rw [said] at fits
      exact (keysFit_concat.mp fits).1
  | entry key value =>
      rw [said] at fits
      exact (keysFit_concat.mp fits).1
  | malformed => rwa [said] at fits

private theorem keysFit_of_readStep {line : Text} (fits : KeysFit (readStep r line).given) :
    KeysFit r.given := by
  rcases readStep_cases r line with blank | ⟨-, continued⟩ | complete
  · rwa [blank] at fits
  · rwa [continued] at fits
  · rw [complete] at fits
    have kept := keysFit_of_take fits
    exact kept

private theorem blank_readStep {line : Text} (blank : r.blank = true) :
    (readStep r line).blank = true := by
  rcases readStep_cases r line with first | ⟨-, continued⟩ | complete
  · rw [first]
  · rw [continued]
    exact blank
  · rw [complete, (take_frame _ _).2.1]
    exact blank

private theorem followed_readStep (r : Reading) (line : Text) :
    (readStep r line).followed = r.blank := by
  rcases readStep_cases r line with blank | ⟨-, continued⟩ | complete
  · rw [blank]
  · rw [continued]
  · rw [complete, (take_frame _ _).2.2]

private theorem inside_of_foldl {line : Text}
    (inside : Inside before ((line :: lines).foldl readStep r)) :
    KeysFit (readStep r line).given ∧ ¬ InFront before r := by
  induction lines generalizing r line with
  | nil =>
      rw [List.foldl_cons, List.foldl_nil, Inside, followed_readStep] at inside
      exact ⟨inside.1, fun out => inside.2 out.1 out.2⟩
  | cons next lines ih =>
      obtain ⟨fits, within⟩ := ih inside
      exact ⟨keysFit_of_readStep fits, fun out => within ⟨blank_readStep out.1, out.2⟩⟩

private theorem verdict_eq_read_iff (tail : Text) (lines : List Text) (r' : Reading)
    (inside : Inside before r) :
    verdict before tail r lines = .read r' ↔
      tail = [] ∧ AllRoom r lines ∧ Inside before (lines.foldl readStep r) ∧
        lines.foldl readStep r = r' := by
  induction lines generalizing r with
  | nil =>
      rw [verdict]
      split_ifs with ended
      · simp [ended, AllRoom, inside]
      · simp [ended]
      · simp [ended]
  | cons line lines ih =>
      rw [verdict, AllRoom]
      split_ifs with out room fits
      · simp only [false_iff]
        exact fun all => (inside_of_foldl all.2.2.1).2 out
      · have within : Inside before (readStep r line) := by
          refine ⟨fits, ?_⟩
          rw [followed_readStep]
          exact fun blank byte => out ⟨blank, byte⟩
        rw [ih within, and_iff_right room, List.foldl_cons]
      · simp only [false_iff]
        exact fun all => fits (inside_of_foldl all.2.2.1).1
      · simp [room]

private theorem verdict_eq_outside_iff (before : Char) (tail : Text) (lines : List Text)
    (fits : KeysFit r.given) :
    verdict before tail r lines = .outside ↔
      ∃ start, start <+: lines ∧ AllRoom r start ∧
        (¬ KeysFit (start.foldl readStep r).given ∨
          InFront before (start.foldl readStep r) ∧ (start = lines → tail ≠ [])) := by
  induction lines generalizing r with
  | nil =>
      have only : (∃ start, start <+: [] ∧ AllRoom r start ∧
          (¬ KeysFit (start.foldl readStep r).given ∨
            InFront before (start.foldl readStep r) ∧ (start = [] → tail ≠ []))) ↔
          InFront before r ∧ tail ≠ [] := by
        constructor
        · rintro ⟨start, prefix_nil, -, out⟩
          obtain rfl := List.prefix_nil.mp prefix_nil
          exact ⟨(out.resolve_left (not_not_intro fits)).1,
            (out.resolve_left (not_not_intro fits)).2 rfl⟩
        · exact fun out => ⟨[], List.nil_prefix, trivial, .inr ⟨out.1, fun _ => out.2⟩⟩
      rw [verdict, only]
      split_ifs with ended out
      · simp [ended]
      · simp [ended, out]
      · simp [out]
  | cons line lines ih =>
      rw [verdict]
      split_ifs with out room fits'
      · refine iff_of_true rfl ⟨[], List.nil_prefix, trivial, .inr ⟨out, ?_⟩⟩
        exact fun same => absurd same (List.cons_ne_nil _ _).symm
      · rw [ih fits']
        constructor
        · rintro ⟨start, earlier, rooms, goes⟩
          refine ⟨line :: start, (List.prefix_cons_inj line).mpr earlier, ⟨room, rooms⟩, ?_⟩
          exact goes.imp_right fun goes => ⟨goes.1, fun same => goes.2 (List.cons.inj same).2⟩
        · rintro ⟨start, earlier, rooms, goes⟩
          cases start with
          | nil => exact absurd (goes.resolve_left (not_not_intro fits)).1 out
          | cons first start =>
              obtain ⟨rfl, behind⟩ := List.cons_prefix_cons.mp earlier
              refine ⟨start, behind, rooms.2, ?_⟩
              exact goes.imp_right fun goes => ⟨goes.1, fun same => goes.2 (same ▸ rfl)⟩
      · exact iff_of_true rfl ⟨[line], ⟨lines, rfl⟩, ⟨room, trivial⟩, .inl fits'⟩
      · simp only [false_iff]
        rintro ⟨start, earlier, rooms, goes⟩
        cases start with
        | nil => exact out (goes.resolve_left (not_not_intro fits)).1
        | cons first start =>
            obtain ⟨rfl, -⟩ := List.cons_prefix_cons.mp earlier
            exact room rooms.1

/-- The lines of a file. -/
def fileLines (file : CString) : List Text := (splitLines '\n' file.1).1

/-- The last line is ended, too. -/
def Ended (file : CString) : Prop := (splitLines '\n' file.1).2 = []

instance (file : CString) : Decidable (Ended file) := inferInstanceAs (Decidable (_ = _))

private theorem inside_start (before : Char) : Inside before readingStart :=
  ⟨fun _ member => absurd member List.not_mem_nil, fun followed => Bool.noConfusion followed⟩

private theorem follows_start (before : Char) : Follows before readingStart loaderNew :=
  ⟨rfl, iff_of_false Bool.noConfusion fun out => Bool.noConfusion out.1, rfl, rfl, rfl, rfl,
    represents_new 0⟩

private theorem iniparserLoad_endsAs (before : Char) (file : CString) :
    EndsAs before (iniparserLoad before (some file))
      (verdict before (splitLines '\n' file.1).2 readingStart (fileLines file)) := by
  obtain ⟨plain, plain_tail⟩ := Mptsd.Lib.Lines.notMem_splitLines '\n' file.1
  have whole := Mptsd.Lib.Lines.splitLines_join '\n' file.1
  have ends := loadLoop_endsAs (follows_start before) (inside_start before).1 (by decide) plain
    plain_tail (le_of_eq (congrArg List.length whole))
  rwa [whole] at ends

/-- The last thing a file says about a key. -/
def lastGiven (key : Text) (given : List (Text × Option Text)) : Option (Option Text) :=
  ((given.filter fun x => x.1 = key).getLast?).map Prod.snd

/-- A key that is only the name of a section has no value, and is there all the same. -/
def givenGet (given : List (Text × Option Text)) (key : Text) (dflt : CharPtr) : CharPtr :=
  match lastGiven key given with
  | none => dflt
  | some none => .null
  | some (some s) => .text s

private theorem lookup_mapAfter_given (given : List (Text × Option Text)) (key : Text) :
    (mapAfter (givenCalls given)).lookup key = lastGiven key given := by
  induction given using List.reverseRecOn with
  | nil => exact Finmap.lookup_empty key
  | append_singleton given x ih =>
      obtain ⟨own, val⟩ := x
      rw [mapAfter_given, lastGiven, List.filter_append]
      by_cases same : own = key
      · subst same
        simp [Finmap.lookup_insert]
      · rw [Finmap.lookup_insert_of_ne _ (Ne.symm same), ih]
        simp [same, lastGiven]

theorem exists_loaded (before : Char) (file : CString) (ended : Ended file)
    (rooms : AllRoom readingStart (fileLines file))
    (inside : Inside before (reading (fileLines file)))
    (clean : (reading (fileLines file)).errors = 0) :
    ∃ dict log, iniparserLoad before (some file) = .done (some dict) log := by
  have ends := iniparserLoad_endsAs before file
  rw [(verdict_eq_read_iff _ _ _ (inside_start before)).mpr ⟨ended, rooms, inside, rfl⟩] at ends
  obtain ⟨w, follows, result⟩ := ends
  refine ⟨w.dict, w.log, ?_⟩
  rw [result, finish, if_pos (follows.errs.trans clean)]

/-- A file becomes a dictionary if and only if its last line is ended, every line has room behind
what it continues, the keys fit, no line follows a blank one that a backslash in front of the
buffer continues, and no error stands behind the last section or value: an error that one of these
follows is forgotten. -/
theorem load_succeeds_iff (before : Char) (file : CString) :
    (∃ dict log, iniparserLoad before (some file) = .done (some dict) log) ↔
      Ended file ∧ AllRoom readingStart (fileLines file) ∧
        Inside before (reading (fileLines file)) ∧ (reading (fileLines file)).errors = 0 := by
  have ends := iniparserLoad_endsAs before file
  have read_iff := fun r' => verdict_eq_read_iff (splitLines '\n' file.1).2 (fileLines file) r'
    (inside_start before)
  constructor
  · rintro ⟨dict, log, loaded⟩
    cases said : verdict before (splitLines '\n' file.1).2 readingStart (fileLines file) with
    | read r =>
        rw [said] at ends
        obtain ⟨w, follows, result⟩ := ends
        obtain ⟨ended, rooms, inside, rfl⟩ := (read_iff r).mp said
        refine ⟨ended, rooms, inside, ?_⟩
        rw [loaded, finish, LoadResult.done.injEq] at result
        have clean : w.errs = 0 := by
          by_contra some
          rw [if_neg some] at result
          cases result.1
        exact follows.errs.symm.trans clean
    | tooLong r =>
        rw [said, loaded] at ends
        cases ends
    | outside =>
        rw [said, loaded] at ends
        cases ends
  · rintro ⟨ended, rooms, inside, clean⟩
    exact exists_loaded before file ended rooms inside clean

theorem loaded_gives {before : Char} {file : CString} {dict : Dict} {log : List Report}
    (loaded : iniparserLoad before (some file) = .done (some dict) log) :
    log = (reading (fileLines file)).log ∧ ∀ key dflt,
      dictionaryGet dict key dflt = givenGet (reading (fileLines file)).given key dflt := by
  have ends := iniparserLoad_endsAs before file
  cases said : verdict before (splitLines '\n' file.1).2 readingStart (fileLines file) with
  | read r =>
      rw [said] at ends
      obtain ⟨w, follows, result⟩ := ends
      obtain ⟨-, -, -, rfl⟩ := (verdict_eq_read_iff _ _ _ (inside_start before)).mp said
      rw [loaded, finish, LoadResult.done.injEq] at result
      obtain ⟨own, rfl⟩ := result
      split_ifs at own
      obtain rfl := Option.some.inj own
      refine ⟨follows.log, ?_⟩
      intro key dflt
      rw [follows.dict.get, mapGet, lookup_mapAfter_given]
      rfl
  | tooLong r =>
      rw [said, loaded] at ends
      cases ends
  | outside =>
      rw [said, loaded] at ends
      cases ends

/-- The parser writes outside its arrays if and only if some lines that all have room give a key
that is longer than its buffer, or one of them is blank, more of the file follows, and the byte in
front of the buffer is a backslash. -/
theorem load_outside_iff (before : Char) (file : CString) :
    iniparserLoad before (some file) = .outside ↔
      ∃ start, start <+: fileLines file ∧ AllRoom readingStart start ∧
        (¬ KeysFit (reading start).given ∨
          InFront before (reading start) ∧ (start = fileLines file → ¬ Ended file)) := by
  have ends := iniparserLoad_endsAs before file
  have out_iff := verdict_eq_outside_iff before (splitLines '\n' file.1).2 (fileLines file)
    (inside_start before).1
  refine Iff.trans ?_ out_iff
  cases said : verdict before (splitLines '\n' file.1).2 readingStart (fileLines file) with
  | read r =>
      rw [said] at ends
      obtain ⟨w, -, result⟩ := ends
      rw [result, finish]
      simp
  | tooLong r =>
      rw [said] at ends
      rw [ends]
      simp
  | outside =>
      rw [said] at ends
      exact iff_of_true ends rfl

end file

end Mptsd.Inifile.Load
