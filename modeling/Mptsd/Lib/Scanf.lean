/- Unit: Mptsd/Lib/Scanf
   digest: Formats of scan sets, blanks and fixed characters, and what they convert of a text. -/

import Mathlib.Data.List.TakeWhile
import Mathlib.Tactic

set_option autoImplicit false
set_option relaxedAutoImplicit false

namespace Mptsd.Lib.Scanf

variable {α : Type*}

/-- A scan set converts the longest run of its characters, which must not be empty. Blanks are
skipped, as many as there are. -/
inductive Directive (α : Type*)
  | take (allows : α → Bool)
  | skip (blank : α → Bool)
  | one (c : α)

/-- The conversions up to the first directive that fails. -/
def scan [DecidableEq α] : List (Directive α) → List α → List (List α)
  | [], _ => []
  | .take allows :: format, text =>
      match text.takeWhile allows with
      | [] => []
      | c :: run => (c :: run) :: scan format (text.dropWhile allows)
  | .skip blank :: format, text => scan format (text.dropWhile blank)
  | .one _ :: _, [] => []
  | .one c :: format, x :: text => if x = c then scan format text else []

variable [DecidableEq α] {allows blank : α → Bool} {format : List (Directive α)}
variable {run text : List α} {c x : α}

theorem scan_take (nonempty : run ≠ []) (run_allowed : ∀ c ∈ run, allows c = true)
    (stop : ∀ c, text.head? = some c → allows c = false) :
    scan (.take allows :: format) (run ++ text) = run :: scan format text := by
  have nothing : text.takeWhile allows = [] ∧ text.dropWhile allows = text := by
    cases text with
    | nil => exact ⟨rfl, rfl⟩
    | cons c text =>
        have other := stop c rfl
        exact ⟨List.takeWhile_cons_of_neg (by simp [other]),
          List.dropWhile_cons_of_neg (by simp [other])⟩
  rw [scan, List.takeWhile_append_of_pos run_allowed, nothing.1, List.append_nil,
    List.dropWhile_append_of_pos run_allowed, nothing.2]
  cases run with
  | nil => exact absurd rfl nonempty
  | cons c run => rfl

@[simp] theorem scan_skip :
    scan (.skip blank :: format) text = scan format (text.dropWhile blank) := rfl

@[simp] theorem scan_one_nil : scan (.one c :: format) [] = [] := rfl

@[simp] theorem scan_one_self : scan (.one c :: format) (c :: text) = scan format text :=
  if_pos rfl

theorem scan_one_ne (other : x ≠ c) : scan (.one c :: format) (x :: text) = [] := if_neg other

end Mptsd.Lib.Scanf
