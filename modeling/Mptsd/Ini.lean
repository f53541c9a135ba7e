/- Unit: Mptsd/Ini
   source: src/iniparser.c (iniparser_getstring, iniparser_getint, iniparser_getboolean,
   ini_get_string, ini_get_int, ini_get_bool)
   digest: A parsed configuration file, and the functions that read a key of it. -/

import Mptsd.Lib.Radix

set_option autoImplicit false
set_option relaxedAutoImplicit false

namespace Mptsd.Ini

open Mptsd.Lib.Radix (value foldl_eq_value)

/-- The entries of a parsed file by key, in lower case. The name of a section is a key as well, and
its value is a null pointer. -/
abbrev Dictionary := String → Option (Option String)

/-- What can be read of a file: the keys that have a value, with their values. It is all there is to
a loader that survives, since the functions that read numbers do not survive a null pointer. -/
abbrev Values := String → Option String

def valuesOf (ini : Dictionary) : Values := fun key => (ini key).join

/-- The key is the name of a section, and a number must not be read there. -/
def NamesSection (ini : Dictionary) (key : String) : Prop := ini key.toLower = some none

instance (ini : Dictionary) (key : String) : Decidable (NamesSection ini key) :=
  inferInstanceAs (Decidable (_ = _))

def iniGetString (ini : Values) (notfound : Option String) (key : String) : Option String :=
  (ini key.toLower).or notfound

/-- The value of a digit, `36` for any other character. -/
def digitValue (c : Char) : ℕ :=
  if c.isDigit then c.toNat - 48
  else if c.isAlpha then c.toLower.toNat - 87
  else 36

/-- The number the longest run of digits denotes. -/
def readDigits (base : ℕ) (value : ℕ) : List Char → ℕ
  | [] => value
  | c :: rest =>
      if digitValue c < base then readDigits base (value * base + digitValue c) rest else value

theorem readDigits_append {base v : ℕ} {digits rest : List Char}
    (small : ∀ c ∈ digits, digitValue c < base)
    (ended : ∀ c, rest.head? = some c → base ≤ digitValue c) :
    readDigits base v (digits ++ rest) =
      v * base ^ digits.length + value base (digits.map digitValue) := by
  have read : readDigits base v (digits ++ rest) =
      (digits.map digitValue).foldl (fun v d => v * base + d) v := by
    induction digits generalizing v with
    | nil =>
        cases rest with
        | nil => rfl
        | cons c rest =>
            have stop : ¬ digitValue c < base := not_lt.mpr (ended c rfl)
            rw [List.nil_append, readDigits, if_neg stop]
            rfl
    | cons c digits ih =>
        rw [List.forall_mem_cons] at small
        rw [List.cons_append, readDigits, if_pos small.1, ih small.2]
        rfl
  rw [read, foldl_eq_value, List.length_map]

/-- The base a number is written in, and its digits. -/
def readBase : List Char → ℕ × List Char
  | '0' :: x :: d :: rest =>
      if (x = 'x' ∨ x = 'X') ∧ digitValue d < 16 then (16, d :: rest)
      else (8, '0' :: x :: d :: rest)
  | '0' :: rest => (8, '0' :: rest)
  | digits => (10, digits)

/-- `strtol(str, NULL, 0)`. -/
def strtol (str : String) : ℤ :=
  let text := str.toList.dropWhile Char.isWhitespace
  let signed : ℤ × List Char :=
    match text with
    | '-' :: rest => (-1, rest)
    | '+' :: rest => (1, rest)
    | _ => (1, text)
  let number := readBase signed.2
  max (-2 ^ 63) (min (2 ^ 63 - 1) (signed.1 * readDigits number.1 0 number.2))

/-- The number is cut down to an `int`. -/
def iniGetInt (ini : Values) (notfound : ℤ) (key : String) : ℤ :=
  match ini key.toLower with
  | none => notfound
  | some str => (strtol str).bmod (2 ^ 32)

/-- The first character decides. -/
def iniGetBool (ini : Values) (notfound : ℤ) (key : String) : ℤ :=
  match ini key.toLower with
  | none => notfound
  | some str =>
      match str.toList with
      | [] => notfound
      | c :: _ =>
          if c = 'y' ∨ c = 'Y' ∨ c = '1' ∨ c = 't' ∨ c = 'T' then 1
          else if c = 'n' ∨ c = 'N' ∨ c = '0' ∨ c = 'f' ∨ c = 'F' then 0
          else notfound

end Mptsd.Ini
