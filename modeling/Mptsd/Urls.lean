/- Unit: Mptsd/Urls
   source: src/data.c (get_sproto, is_rtp, chansrc_init), src/config.c (is_valid_url),
   src/data.h (CHANSRC)
   digest: The address of a source: which ones are accepted, what is made of them, and that they
   can be written and read again. -/

import Mptsd.Lib.Posix
import Mptsd.Lib.Strings
import Mptsd.Network.Response

set_option autoImplicit false
set_option relaxedAutoImplicit false

namespace Mptsd.Urls

open Mptsd.Ini (digitValue readDigits)
open Mptsd.Lib.Posix
open Mptsd.Lib.Strings
open Mptsd.Network.Response (ChannelSource atoi)
open Mptsd.Reload.Load (digitValue_lt isSpace toNat_of_isDigit)

/-- `[^:/?]`. -/
def inHost (c : Char) : Bool := c != ':' && c != '/' && c != '?'

/-- `^([a-z]+)://([^:/?]+):?([0-9]*)/?(.*)`. -/
def urlPattern : List (Piece Char) :=
  [.plus Char.isLower, .one (· == ':'), .one (· == '/'), .one (· == '/'), .plus inHost,
    .optional (· == ':'), .star Char.isDigit, .optional (· == '/'), .star fun _ => true]

/-- The pieces in parentheses. -/
def groups : List ℕ := [0, 4, 6, 8]

/-- `rm_so` of a piece. -/
def rmSo (chunks : List (List Char)) (piece : ℕ) : ℕ := (chunks.take piece).flatten.length

/-- `rm_eo` of a piece. -/
def rmEo (chunks : List (List Char)) (piece : ℕ) : ℕ := (chunks.take (piece + 1)).flatten.length

@[ext] structure Chansrc where
  sproto : ChannelSource
  proto : CString
  host : CString
  path : CString
  port : ℕ
  rtp : ℕ
  deriving DecidableEq

/-- `strncmp(url, "http", 4) == 0`. -/
def getSproto (url : CString) : ChannelSource :=
  if url.1.take 4 = "http".toList then .tcpSock else .udpSock

/-- `strncmp(url, "rtp", 3) == 0`: which of its reads an input makes. -/
def isRtp (url : CString) : Bool := url.1.take 3 = "rtp".toList

def isValidUrl (url : CString) : Bool := (posixMatch urlPattern url.1).isSome

/-- All groups are closed by a NUL in one copy of the address before the first of them is read. -/
def chansrcInit : Option CString → Option Chansrc
  | none => none
  | some url =>
      (posixMatch urlPattern url.1).map fun chunks =>
        let data := terminate url (groups.map (rmEo chunks))
        let group := fun piece => readString (data.drop (rmSo chunks piece))
        let iport := atoi (group 6).1
        { sproto := getSproto url
          proto := group 0
          host := group 4
          path := group 8
          port := if iport ≠ 0 then (iport % 2 ^ 32).toNat else 80
          rtp := if (group 0).1 = "rtp".toList then 1 else 0 }

/-- The digits of the port. -/
def portDigits (url : CString) : List Char :=
  ((posixMatch urlPattern url.1).bind (·[6]?)).getD []

/-- The parts of an address that is accepted: as many letters as there are, as many characters of
the host, and as many digits. -/
structure UrlParts where
  proto : List Char
  host : List Char
  colon : Bool
  digits : List Char
  slash : Bool
  path : List Char
  lower : ∀ c ∈ proto, c.isLower = true
  proto_ne : proto ≠ []
  named : ∀ c ∈ host, inHost c = true
  host_ne : host ≠ []
  number : ∀ c ∈ digits, c.isDigit = true
  afterHost : colon = false → ∀ c,
    (digits ++ ((if slash then ['/'] else []) ++ path)).head? = some c →
      inHost c = false ∧ c ≠ ':'
  afterDigits : slash = false → ∀ c, path.head? = some c → c.isDigit = false ∧ c ≠ '/'

namespace UrlParts

variable (u : UrlParts)

def chunks : List (List Char) :=
  [u.proto, [':'], ['/'], ['/'], u.host, if u.colon then [':'] else [], u.digits,
    if u.slash then ['/'] else [], u.path]

def text : List Char := u.chunks.flatten

private theorem greedy : Greedy urlPattern u.chunks := by
  refine greedy_plus u.lower u.proto_ne ?_
    (greedy_one rfl (greedy_one rfl (greedy_one rfl (greedy_plus u.named u.host_ne ?_
      (greedy_optional rfl u.colon ?_ (greedy_star u.number ?_ (greedy_optional rfl u.slash ?_
        (greedy_star (fun _ _ => rfl) ?_ trivial))))))))
  · rintro d ⟨⟩
    rfl
  · intro d next
    cases here : u.colon with
    | true =>
        rw [here] at next
        obtain rfl := Option.some.inj next
        rfl
    | false =>
        rw [here] at next
        exact (u.afterHost here d (by simpa using next)).1
  · intro here d next
    exact beq_false_of_ne (u.afterHost here d (by simpa using next)).2
  · intro d next
    cases here : u.slash with
    | true =>
        rw [here] at next
        obtain rfl := Option.some.inj next
        rfl
    | false =>
        rw [here] at next
        exact (u.afterDigits here d (by simpa using next)).1
  · intro here d next
    exact beq_false_of_ne (u.afterDigits here d (by simpa using next)).2
  · rintro d ⟨⟩

private theorem posixMatch_text : posixMatch urlPattern u.text = some u.chunks :=
  posixMatch_of_greedy u.greedy

end UrlParts

section accepted

private theorem inHost_of_isDigit {c : Char} (digit : c.isDigit = true) : inHost c = true := by
  have other : c ≠ ':' ∧ c ≠ '/' ∧ c ≠ '?' := by
    refine ⟨?_, ?_, ?_⟩
    all_goals
      rintro rfl
      exact absurd digit (by decide)
  simp [inHost, other]

private theorem exists_path {rest : List Char}
    (stop : ∀ c, rest.head? = some c → c.isDigit = false) :
    ∃ slash path, rest = (if slash then ['/'] else []) ++ path ∧
      (slash = false → ∀ c, path.head? = some c → c.isDigit = false ∧ c ≠ '/') := by
  cases rest with
  | nil => exact ⟨false, [], rfl, fun _ c next => by cases next⟩
  | cons c rest =>
      by_cases here : c = '/'
      · subst here
        exact ⟨true, rest, rfl, fun absurd => by cases absurd⟩
      · refine ⟨false, c :: rest, rfl, ?_⟩
        rintro - d ⟨⟩
        exact ⟨stop c rfl, here⟩

private theorem exists_port {rest : List Char}
    (stop : ∀ c, rest.head? = some c → inHost c = false) :
    ∃ colon digits slash path, rest =
        (if colon then [':'] else []) ++ (digits ++ ((if slash then ['/'] else []) ++ path)) ∧
      (∀ c ∈ digits, c.isDigit = true) ∧
      (colon = false → ∀ c,
        (digits ++ ((if slash then ['/'] else []) ++ path)).head? = some c →
          inHost c = false ∧ c ≠ ':') ∧
      (slash = false → ∀ c, path.head? = some c → c.isDigit = false ∧ c ≠ '/') := by
  by_cases here : rest.head? = some ':'
  · obtain ⟨behind, rfl⟩ := List.head?_eq_some_iff.mp here
    have ended : ∀ c, (behind.dropWhile Char.isDigit).head? = some c → c.isDigit = false := by
      intro c next
      have test := List.head?_dropWhile_not Char.isDigit behind
      rw [next] at test
      simpa using test
    obtain ⟨slash, path, split, afterDigits⟩ := exists_path ended
    refine ⟨true, behind.takeWhile Char.isDigit, slash, path, ?_, ?_, ?_, afterDigits⟩
    · rw [← split, List.takeWhile_append_dropWhile]
      rfl
    · exact fun c member => List.mem_takeWhile_imp member
    · rintro ⟨⟩
  · have ended : ∀ c, rest.head? = some c → c.isDigit = false := by
      intro c next
      by_contra digit
      have inside := inHost_of_isDigit (Bool.of_not_eq_false digit)
      rw [stop c next] at inside
      cases inside
    obtain ⟨slash, path, split, afterDigits⟩ := exists_path ended
    refine ⟨false, [], slash, path, split, by simp, ?_, afterDigits⟩
    rintro - c next
    rw [List.nil_append, ← split] at next
    exact ⟨stop c next, fun eq => here (eq ▸ next)⟩

private theorem exists_parts {text : List Char}
    (valid : Mptsd.Reload.Load.isValidUrl (String.ofList text) = true) :
    ∃ u : UrlParts, u.text = text := by
  rw [Mptsd.Reload.Load.isValidUrl, String.toList_ofList] at valid
  split at valid
  case h_2 => cases valid
  case h_1 c tail scheme =>
    simp only [Bool.and_eq_true, bne_iff_ne] at valid
    obtain ⟨⟨⟨first, ne₁⟩, ne₂⟩, ne₃⟩ := valid
    have own : inHost c = true := by simp [inHost, ne₁, ne₂, ne₃]
    have split := List.takeWhile_append_dropWhile (p := inHost) (l := c :: tail)
    have ended : ∀ d, ((c :: tail).dropWhile inHost).head? = some d → inHost d = false := by
      intro d next
      have test := List.head?_dropWhile_not inHost (c :: tail)
      rw [next] at test
      simpa using test
    obtain ⟨colon, digits, slash, path, rest, number, afterHost, afterDigits⟩ := exists_port ended
    refine ⟨⟨text.takeWhile Char.isLower, (c :: tail).takeWhile inHost, colon, digits, slash, path,
      fun d => List.mem_takeWhile_imp, ?_, fun d => List.mem_takeWhile_imp, ?_, number, afterHost,
      afterDigits⟩, ?_⟩
    · cases text with
      | nil => cases first
      | cons d text =>
          rw [List.takeWhile_cons_of_pos (by simpa using first)]
          exact List.cons_ne_nil _ _
    · rw [List.takeWhile_cons_of_pos own]
      exact List.cons_ne_nil _ _
    · have whole := List.takeWhile_append_dropWhile (p := Char.isLower) (l := text)
      rw [scheme, ← split, rest] at whole
      simpa [UrlParts.text, UrlParts.chunks] using whole

private theorem isValidUrl_eq (url : CString) :
    isValidUrl url = Mptsd.Reload.Load.isValidUrl (String.ofList url.1) := by
  rw [Bool.eq_iff_iff]
  constructor
  · intro valid
    obtain ⟨chunks, found⟩ := Option.isSome_iff_exists.mp valid
    obtain ⟨accepted, behind, whole⟩ := of_posixMatch found
    obtain ⟨proto, _, lower, accepted₁, rfl⟩ := List.forall₂_cons_left_iff.mp accepted
    obtain ⟨_, _, colon, accepted₂, rfl⟩ := List.forall₂_cons_left_iff.mp accepted₁
    obtain ⟨_, _, slash, accepted₃, rfl⟩ := List.forall₂_cons_left_iff.mp accepted₂
    obtain ⟨_, _, slash', accepted₄, rfl⟩ := List.forall₂_cons_left_iff.mp accepted₃
    obtain ⟨host, others, named, -, rfl⟩ := List.forall₂_cons_left_iff.mp accepted₄
    obtain ⟨_, rfl, isColon⟩ := accepts_one colon
    obtain ⟨_, rfl, isSlash⟩ := accepts_one slash
    obtain ⟨_, rfl, isSlash'⟩ := accepts_one slash'
    obtain rfl := beq_iff_eq.mp isColon
    obtain rfl := beq_iff_eq.mp isSlash
    obtain rfl := beq_iff_eq.mp isSlash'
    obtain ⟨nonempty, letters⟩ := accepts_plus lower
    obtain ⟨nonempty', characters⟩ := accepts_plus named
    obtain ⟨c, proto', rfl⟩ := List.exists_cons_of_ne_nil nonempty
    obtain ⟨h, host', rfl⟩ := List.exists_cons_of_ne_nil nonempty'
    have first := letters c List.mem_cons_self
    have start := characters h List.mem_cons_self
    have scheme : url.1.dropWhile Char.isLower =
        ':' :: '/' :: '/' :: h :: (host' ++ (others.flatten ++ behind)) := by
      rw [← whole, List.flatten_cons, List.append_assoc, List.dropWhile_append_of_pos letters]
      simp
    have head : url.1.head? = some c := by
      rw [← whole]
      rfl
    rw [Mptsd.Reload.Load.isValidUrl, String.toList_ofList, scheme, head]
    simpa [inHost, first, and_assoc] using start
  · intro valid
    obtain ⟨u, text⟩ := exists_parts valid
    rw [isValidUrl, ← text, u.posixMatch_text]
    rfl

end accepted

section groups

variable {u : UrlParts} {url : CString}

private theorem take_drop_rmSo {chunks : List (List Char)} {piece : ℕ} {chunk : List Char}
    (found : chunks[piece]? = some chunk) :
    rmEo chunks piece = rmSo chunks piece + chunk.length ∧
      rmEo chunks piece ≤ chunks.flatten.length ∧
      (chunks.flatten.drop (rmSo chunks piece)).take chunk.length = chunk := by
  obtain ⟨below, rfl⟩ := List.getElem?_eq_some_iff.mp found
  have stop : rmEo chunks piece = rmSo chunks piece + chunks[piece].length := by
    rw [rmEo, rmSo, List.take_succ_eq_append_getElem below, List.flatten_append,
      List.length_append, List.flatten_singleton]
  have split : chunks.flatten = (chunks.take piece).flatten ++
      (chunks[piece] ++ (chunks.drop (piece + 1)).flatten) := by
    rw [← List.flatten_cons, ← List.drop_eq_getElem_cons below, ← List.flatten_append,
      List.take_append_drop]
  refine ⟨stop, ?_, ?_⟩
  · rw [stop, rmSo, split]
    simp only [List.length_append]
    omega
  · rw [split, rmSo, List.drop_left, List.take_left]

private theorem readString_group {chunks : List (List Char)} (whole : url.1 = chunks.flatten)
    {piece : ℕ}
    {chunk : List Char} (found : chunks[piece]? = some chunk) (member : piece ∈ groups)
    (first : ∀ other ∈ groups, rmSo chunks piece ≤ rmEo chunks other →
      rmEo chunks piece ≤ rmEo chunks other) :
    (readString ((terminate url (groups.map (rmEo chunks))).drop (rmSo chunks piece))).1 =
      chunk := by
  obtain ⟨stop, inside, own⟩ := take_drop_rmSo found
  rw [readString_terminate (by omega) (by rw [whole]; exact inside)
    (List.mem_map_of_mem member) (by simpa using first), stop, Nat.add_sub_cancel_left, whole, own]

private theorem readString_cut {chunks : List (List Char)} (whole : url.1 = chunks.flatten)
    {piece : ℕ}
    {chunk : List Char} (found : chunks[piece]? = some chunk) {other : ℕ} (member : other ∈ groups)
    (cut : rmEo chunks other = rmSo chunks piece) :
    (readString ((terminate url (groups.map (rmEo chunks))).drop (rmSo chunks piece))).1 = [] := by
  obtain ⟨stop, inside, -⟩ := take_drop_rmSo found
  rw [readString_terminate (le_refl _) (by rw [whole]; omega)
    (List.mem_map.mpr ⟨other, member, cut⟩) (fun _ _ le => le), Nat.sub_self, List.take_zero]

private theorem UrlParts.digits_eq_nil (u : UrlParts) (colon : u.colon = false) :
    u.digits = [] := by
  cases digits : u.digits with
  | nil => rfl
  | cons c rest =>
      have digit := u.number c (digits ▸ List.mem_cons_self)
      have outside := (u.afterHost colon c (by rw [digits]; rfl)).1
      rw [inHost_of_isDigit digit] at outside
      cases outside

/-- The port that `chansrc_init` makes of some digits. -/
def portOf (digits : List Char) : ℕ :=
  if atoi digits ≠ 0 then (atoi digits % 2 ^ 32).toNat else 80

private theorem forall_groups {P : ℕ → Prop} :
    (∀ piece ∈ groups, P piece) ↔ P 0 ∧ P 4 ∧ P 6 ∧ P 8 := by
  simp [groups]

private theorem offsets (u : UrlParts) :
    rmSo u.chunks 0 = 0 ∧ rmEo u.chunks 0 = u.proto.length ∧
      rmSo u.chunks 4 = u.proto.length + 3 ∧ rmEo u.chunks 4 = rmSo u.chunks 4 + u.host.length ∧
      rmSo u.chunks 6 = rmEo u.chunks 4 + (if u.colon then 1 else 0) ∧
      rmEo u.chunks 6 = rmSo u.chunks 6 + u.digits.length ∧
      rmSo u.chunks 8 = rmEo u.chunks 6 + (if u.slash then 1 else 0) ∧
      rmEo u.chunks 8 = rmSo u.chunks 8 + u.path.length := by
  simp only [rmSo, rmEo, UrlParts.chunks, List.take_succ_cons, List.take_zero, List.flatten_cons,
    List.flatten_nil, List.length_append, List.length_cons, List.length_nil, apply_ite List.length,
    Nat.zero_add, Nat.add_zero, true_and]
  refine ⟨?_, ?_, ?_, ?_, ?_⟩
  all_goals omega

private theorem chansrcInit_parts (text : url.1 = u.text) :
    ∃ src, chansrcInit (some url) = some src ∧ src.sproto = getSproto url ∧ src.proto.1 = u.proto ∧
      src.host.1 = u.host ∧ src.path.1 = (if u.slash then u.path else []) ∧
      src.port = portOf u.digits ∧ src.rtp = if u.proto = "rtp".toList then 1 else 0 := by
  have found : posixMatch urlPattern url.1 = some u.chunks := text ▸ u.posixMatch_text
  have proto_pos := List.length_pos_iff.mpr u.proto_ne
  have host_pos := List.length_pos_iff.mpr u.host_ne
  obtain ⟨so₀, eo₀, so₄, eo₄, so₆, eo₆, so₈, eo₈⟩ := offsets u
  have proto : (readString ((terminate url (groups.map (rmEo u.chunks))).drop
      (rmSo u.chunks 0))).1 = u.proto := by
    apply readString_group text rfl (by decide)
    rw [forall_groups]
    omega
  have host : (readString ((terminate url (groups.map (rmEo u.chunks))).drop
      (rmSo u.chunks 4))).1 = u.host := by
    apply readString_group text rfl (by decide)
    rw [forall_groups]
    omega
  have port : (readString ((terminate url (groups.map (rmEo u.chunks))).drop
      (rmSo u.chunks 6))).1 = u.digits := by
    apply readString_group text rfl (by decide)
    rw [forall_groups]
    cases colon : u.colon with
    | true =>
        rw [colon, if_pos rfl] at so₆
        omega
    | false =>
        rw [u.digits_eq_nil colon, List.length_nil] at eo₆
        rw [colon, if_neg (by decide)] at so₆
        omega
  have path : (readString ((terminate url (groups.map (rmEo u.chunks))).drop
      (rmSo u.chunks 8))).1 = if u.slash then u.path else [] := by
    cases slash : u.slash with
    | true =>
        apply readString_group text rfl (by decide)
        rw [forall_groups]
        rw [slash, if_pos rfl] at so₈
        omega
    | false =>
        rw [slash, if_neg (by decide)] at so₈
        exact readString_cut text rfl (by decide) so₈.symm
  refine ⟨_, by rw [chansrcInit, found]; rfl, rfl, proto, host, path, ?_, ?_⟩
  · show (if atoi (readString _).1 ≠ 0 then _ else _) = _
    rw [port, portOf]
  · show (if (readString _).1 = _ then _ else _) = _
    rw [proto]

end groups

section port

variable {digits : List Char}

private theorem atoi_digits (number : ∀ c ∈ digits, c.isDigit = true) :
    atoi digits = (min (2 ^ 63 - 1 : ℤ) (readDigits 10 0 digits)).bmod (2 ^ 32) := by
  have plain : ∀ c ∈ digits, isSpace c = false ∧ c ≠ '-' ∧ c ≠ '+' := by
    intro c member
    have digit := number c member
    have bounds := toNat_of_isDigit digit
    refine ⟨?_, ?_, ?_⟩
    · have other : c ≠ ' ' := by
        rintro rfl
        exact absurd digit (by decide)
      simp only [isSpace, other, decide_false, Bool.false_or, Bool.and_eq_false_iff,
        decide_eq_false_iff_not]
      omega
    · rintro rfl
      exact absurd digit (by decide)
    · rintro rfl
      exact absurd digit (by decide)
  have text : digits.dropWhile isSpace = digits := by
    cases digits with
    | nil => rfl
    | cons c rest => exact List.dropWhile_cons_of_neg (by simp [(plain c List.mem_cons_self).1])
  have nonnegative : ∀ n : ℕ,
      max (-2 ^ 63 : ℤ) (min (2 ^ 63 - 1 : ℤ) (1 * (n : ℤ))) = min (2 ^ 63 - 1 : ℤ) (n : ℤ) := by
    intro n
    omega
  rw [atoi, text]
  cases digits with
  | nil => exact congrArg (Int.bmod · (2 ^ 32)) (nonnegative _)
  | cons c rest =>
      obtain ⟨-, minus, plus⟩ := plain c List.mem_cons_self
      split
      case h_1 eq => exact absurd (List.cons.inj eq).1 minus
      case h_2 eq => exact absurd (List.cons.inj eq).1 plus
      case h_3 => exact congrArg (Int.bmod · (2 ^ 32)) (nonnegative _)

private theorem portOf_ne_zero (digits : List Char) : portOf digits ≠ 0 := by
  rw [portOf]
  split_ifs with nonzero
  · have low : -((2 ^ 32 : ℕ) / 2 : ℤ) ≤ atoi digits := Int.le_bmod (by decide)
    have high : atoi digits < ((2 ^ 32 : ℕ) + 1 : ℤ) / 2 := Int.bmod_lt (by decide)
    omega
  · decide

private theorem portOf_eq (number : ∀ c ∈ digits, c.isDigit = true)
    (small : readDigits 10 0 digits < 2 ^ 31) :
    portOf digits = if readDigits 10 0 digits ≠ 0 then readDigits 10 0 digits else 80 := by
  have iport : atoi digits = readDigits 10 0 digits := by
    rw [atoi_digits number, min_eq_right (by omega)]
    exact Int.bmod_eq_of_le_mul_two (by omega) (by omega)
  rw [portOf, iport]
  split_ifs with h₁ h₂ h₂
  · omega
  · omega
  · omega
  · rfl

private theorem readDigits_toDigits (n : ℕ) : readDigits 10 0 (Nat.toDigits 10 n) = n := by
  have same : ∀ (digits : List Char) (v : ℕ), (∀ c ∈ digits, c.isDigit = true) →
      readDigits 10 v digits = Nat.ofDigitChars 10 digits v := by
    intro digits
    induction digits with
    | nil => exact fun _ _ => rfl
    | cons c rest ih =>
        intro v number
        rw [List.forall_mem_cons] at number
        rw [readDigits, if_pos (digitValue_lt number.1), ih _ number.2, Nat.ofDigitChars_cons,
          digitValue, if_pos number.1, Nat.mul_comm]
        rfl
  rw [same _ _ fun c => Nat.isDigit_of_mem_toDigits (by decide) (by decide),
    Nat.ofDigitChars_ten_toDigits]

private theorem portOf_toDigits {port : ℕ} (pos : 0 < port) (small : port < 2 ^ 31) :
    portOf (Nat.toDigits 10 port) = port := by
  have number : ∀ c ∈ Nat.toDigits 10 port, c.isDigit = true :=
    fun c => Nat.isDigit_of_mem_toDigits (by decide) (by decide)
  rw [portOf_eq number (by rwa [readDigits_toDigits]), readDigits_toDigits, if_pos pos.ne']

end port

section format

private theorem nul_not_digit {digits : List Char} (number : ∀ c ∈ digits, c.isDigit = true) :
    nul ∉ digits := by
  intro member
  exact absurd (number nul member) (by decide)

/-- `proto://host:port/path`. -/
def formatUrl (src : Chansrc) : CString where
  val := src.proto.1 ++ ("://".toList ++ (src.host.1 ++ (":".toList ++
    (Nat.toDigits 10 src.port ++ ("/".toList ++ src.path.1)))))
  property := by
    have digits : nul ∉ Nat.toDigits 10 src.port :=
      nul_not_digit fun c => Nat.isDigit_of_mem_toDigits (by decide) (by decide)
    simp only [List.mem_append, not_or]
    exact ⟨src.proto.2, by decide, src.host.2, by decide, digits, by decide, src.path.2⟩

/-- The parts of an address that was written from some others. -/
def UrlParts.formatted (u : UrlParts) (port : ℕ) (path : List Char) : UrlParts :=
  { u with
    colon := true
    digits := Nat.toDigits 10 port
    slash := true
    path
    number := fun _ => Nat.isDigit_of_mem_toDigits (by decide) (by decide)
    afterHost := fun absurd => by cases absurd
    afterDigits := fun absurd => by cases absurd }

variable {url : CString} {u : UrlParts}

private theorem take_text (text : url.1 = u.text) {n : ℕ} (few : n ≤ 4) :
    url.1.take n = (u.proto ++ "://".toList).take n := by
  have long : n ≤ (u.proto ++ "://".toList).length := by
    have pos := List.length_pos_iff.mpr u.proto_ne
    rw [List.length_append]
    show n ≤ u.proto.length + 3
    omega
  have whole : url.1 = (u.proto ++ "://".toList) ++ (u.chunks.drop 4).flatten := by
    rw [text, UrlParts.text, UrlParts.chunks]
    simp
  rw [whole, List.take_append_of_le_length long]

private theorem getSproto_eq (text : url.1 = u.text) :
    getSproto url =
      if (u.proto ++ "://".toList).take 4 = "http".toList then .tcpSock else .udpSock := by
  rw [getSproto, take_text text (le_refl 4)]

end format

/-- `chansrc_init` makes a record exactly of the addresses that `is_valid_url` accepts. The port is
never zero and the host has no separator. Unless the port is a number too large for an `int`, the
record is that of the address it is written as. -/
theorem chansrc_round_trip (url : CString) :
    (chansrcInit (some url)).isSome = isValidUrl url ∧
      isValidUrl url = Mptsd.Reload.Load.isValidUrl (String.ofList url.1) ∧
      ∀ src, chansrcInit (some url) = some src →
        src.port ≠ 0 ∧ (∀ c ∈ src.host.1, c ≠ ':' ∧ c ≠ '/' ∧ c ≠ '?') ∧
          (readDigits 10 0 (portDigits url) < 2 ^ 31 →
            chansrcInit (some (formatUrl src)) = some src) := by
  refine ⟨Option.isSome_map, isValidUrl_eq url, ?_⟩
  intro src made
  have valid : isValidUrl url = true := by
    have some : (chansrcInit (some url)).isSome = true := by rw [made]; rfl
    rwa [chansrcInit, Option.isSome_map] at some
  obtain ⟨u, text⟩ := exists_parts (isValidUrl_eq url ▸ valid)
  obtain ⟨src', made', sproto, proto, host, path, port, rtp⟩ := chansrcInit_parts text.symm
  obtain rfl := Option.some.inj (made'.symm.trans made)
  have digits : portDigits url = u.digits := by
    rw [portDigits, ← text, u.posixMatch_text]
    rfl
  refine ⟨port ▸ portOf_ne_zero _, ?_, ?_⟩
  · intro c member
    have own := u.named c (host ▸ member)
    simpa [inHost, and_assoc] using own
  · intro small
    rw [digits] at small
    have bounds : 0 < src'.port ∧ src'.port < 2 ^ 31 := by
      rw [port, portOf_eq u.number small]
      split_ifs <;> omega
    have again : (formatUrl src').1 = (u.formatted src'.port src'.path.1).text := by
      simp [formatUrl, proto, host, UrlParts.text, UrlParts.chunks, UrlParts.formatted]
    obtain ⟨src'', made'', sproto', proto', host', path', port', rtp'⟩ := chansrcInit_parts again
    rw [made'']
    refine congrArg some (Chansrc.ext ?_ (Subtype.ext ?_) (Subtype.ext ?_) (Subtype.ext ?_) ?_ ?_)
    · rw [sproto', sproto, getSproto_eq again, getSproto_eq text.symm]
      rfl
    · exact proto'.trans proto.symm
    · exact host'.trans host.symm
    · exact path'
    · exact port'.trans (portOf_toDigits bounds.1 bounds.2)
    · exact rtp'.trans rtp.symm

/-- A path that no slash leads to is lost. -/
example : (chansrcInit (some ⟨"rtp://h:8a".toList, by decide⟩)).map
    (fun src => (src.port, src.path.1)) = some (8, []) := by
  decide +kernel

end Mptsd.Urls
