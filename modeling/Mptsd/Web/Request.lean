/- Unit: Mptsd/Web/Request
   source: src/web_server.c (process_web_request), src/web_pages.c (cmd_index, cmd_reconnect)
   digest: Which page the web server sends for which request, and what becomes of the connection. -/

import Mathlib.Data.List.DropRight
import Mptsd.Lib.Posix
import Mptsd.Lib.Strings

set_option autoImplicit false
set_option relaxedAutoImplicit false

namespace Mptsd.Web.Request

open Mptsd.Lib.Posix
open Mptsd.Lib.Strings

/-- `cmd_index`, `cmd_reconnect`, `send_404_not_found` and `send_501_not_implemented`. -/
inductive Page
  | index | reconnect | notFound | notImplemented
  deriving DecidableEq

/-- What becomes of the connection. -/
inductive Event
  | answer (page : Page)
  | closed
  deriving DecidableEq

def isLineEnd (c : Char) : Bool := c = '\n' || c = '\r'

/-- `chomp`, which ends a text before the line ends behind it. -/
structure Chomp where
  chomp : List Char → List Char
  chomp_eq : ∀ text, chomp text = text.rdropWhile isLineEnd

/-- The characters of a text, one after the other. -/
def word (text : List Char) : List (Piece Char) := text.map fun c => .one (· == c)

/-- `[^ ]`. -/
def inPath (c : Char) : Bool := c != ' '

/-- `^GET /([^ ]*) HTTP/1.*$`: the end is reached by the last piece. -/
def getPattern : List (Piece Char) :=
  word "GET /".toList ++ .star inPath :: (word " HTTP/1".toList ++ [.star fun _ => true])

/-- The piece in parentheses. -/
def requestPath (line : CString) : Option (List Char) :=
  (posixMatch getPattern line.1).bind (·[5]?)

variable (lib : Chomp)

/-- The path without its line ends, or without the slash behind it. The character looked at is the
last one of the path, or the slash before an empty one; it is gone when `chomp` has cut it off. -/
def trimmed (path : List Char) : List Char :=
  let chomped := lib.chomp path
  if ('/' :: chomped)[path.length]? = some '/' then chomped.dropLast else chomped

def pageOf (path : List Char) : Page :=
  if path.length = 0 then .index
  else if "reconnect".toList.isPrefixOf path then .reconnect
  else .notFound

/-- What `process_web_request` meets. `lines` are the lines that `fdgetline` returns before it
fails; none of them is empty. -/
structure Client where
  keepGoing : Bool
  allocated : Bool
  lines : List (List Char)

/-- The lines behind the headers. -/
def skipHeaders (lines : List (List Char)) : List (List Char) :=
  (lines.dropWhile fun line => !(line.head?.any isLineEnd)).tail

/-- The events, and the lines that are left. -/
def processWebRequest (client : Client) : List Event × List (List Char) :=
  if ¬ client.keepGoing then ([], client.lines)
  else if ¬ client.allocated then ([.closed], client.lines)
  else
    match client.lines with
    | [] => ([.closed], [])
    | line :: rest =>
        match requestPath (readString line) with
        | none => ([.answer .notImplemented, .closed], rest)
        | some path => ([.answer (pageOf (trimmed lib path)), .closed], skipHeaders rest)

section path

variable {line : CString} {path text : List Char} {pieces : List (Piece Char)}
  {chunks : List (List Char)}

/-- A request line asks for a path. -/
def Asks (line path : List Char) : Prop :=
  ' ' ∉ path ∧ ∃ tail, line = "GET /".toList ++ path ++ " HTTP/1".toList ++ tail

private theorem greedy_word (text : List Char) (rest : Greedy pieces chunks) :
    Greedy (word text ++ pieces) (text.map (fun c => [c]) ++ chunks) := by
  induction text with
  | nil => exact rest
  | cons c text ih => exact greedy_one (beq_self_eq_true c) ih

private theorem accepts_word
    (accepted : List.Forall₂ Piece.Accepts (word text ++ pieces) chunks) :
    ∃ rest, chunks = text.map (fun c => [c]) ++ rest ∧ List.Forall₂ Piece.Accepts pieces rest := by
  induction text generalizing chunks with
  | nil => exact ⟨chunks, rfl, accepted⟩
  | cons c text ih =>
      obtain ⟨_, _, own, others, rfl⟩ := List.forall₂_cons_left_iff.mp accepted
      obtain ⟨d, rfl, same⟩ := accepts_one own
      obtain ⟨rest, rfl, later⟩ := ih others
      obtain rfl := beq_iff_eq.mp same
      exact ⟨rest, rfl, later⟩

private theorem flatten_word (text : List Char) : (text.map fun c => [c]).flatten = text := by
  induction text with
  | nil => rfl
  | cons c text ih => rw [List.map_cons, List.flatten_cons, ih, List.singleton_append]

private theorem requestPath_eq_some : requestPath line = some path ↔ Asks line.1 path := by
  rw [requestPath, Option.bind_eq_some_iff]
  constructor
  · rintro ⟨chunks, found, group⟩
    obtain ⟨accepted, behind, whole⟩ := of_posixMatch found
    obtain ⟨_, rfl, accepted₁⟩ := accepts_word accepted
    obtain ⟨chunk, _, own, accepted₂, rfl⟩ := List.forall₂_cons_left_iff.mp accepted₁
    obtain ⟨rest, rfl, -⟩ := accepts_word accepted₂
    obtain rfl : chunk = path := Option.some.inj group
    refine ⟨fun space => absurd (own.allowed ' ' space) (by decide), rest.flatten ++ behind, ?_⟩
    rw [← whole]
    simp only [List.flatten_append, List.flatten_cons, flatten_word, List.append_assoc]
  · rintro ⟨plain, tail, whole⟩
    have inside : ∀ c ∈ path, inPath c = true := by
      intro c member
      rw [inPath, bne_iff_ne]
      rintro rfl
      exact plain member
    have greedy : Greedy getPattern ("GET /".toList.map (fun c => [c]) ++
        path :: (" HTTP/1".toList.map (fun c => [c]) ++ [tail])) := by
      refine greedy_word _ (greedy_star inside ?_ (greedy_word _ (greedy_star (fun _ _ => rfl) ?_
        trivial)))
      · rintro d ⟨⟩
        rfl
      · rintro d ⟨⟩
    have text : ("GET /".toList.map (fun c => [c]) ++
        path :: (" HTTP/1".toList.map (fun c => [c]) ++ [tail])).flatten = line.1 := by
      rw [whole]
      simp only [List.flatten_append, List.flatten_cons, flatten_word, List.append_assoc,
        List.flatten_nil, List.append_nil]
    exact ⟨_, text ▸ posixMatch_of_greedy greedy, rfl⟩

private theorem trimmed_eq (lib : Chomp) (path : List Char) : trimmed lib path =
    if path.getLast? = some '/' then path.dropLast else path.rdropWhile isLineEnd := by
  rw [trimmed, lib.chomp_eq]
  rcases List.eq_nil_or_concat path with rfl | ⟨front, last, rfl⟩
  · rfl
  · rw [List.concat_eq_append, List.getLast?_concat, List.dropLast_concat, List.length_append,
      List.length_singleton, List.getElem?_cons_succ]
    cases lineEnd : isLineEnd last with
    | true =>
        have other : last ≠ '/' := by
          rintro rfl
          exact absurd lineEnd (by decide)
        have short := (List.rdropWhile_prefix isLineEnd front).length_le
        rw [List.rdropWhile_concat_pos _ _ _ lineEnd, List.getElem?_eq_none short, if_neg (by simp),
          if_neg (by simpa using other)]
    | false =>
        rw [List.rdropWhile_concat_neg _ _ _ (by simp [lineEnd]), List.getElem?_concat_length,
          List.dropLast_concat]

private theorem reconnect_prefix_iff (lib : Chomp) (path : List Char) :
    "reconnect".toList <+: trimmed lib path ↔ "reconnect".toList <+: path := by
  rw [trimmed_eq]
  constructor
  · intro start
    refine start.trans ?_
    split_ifs
    · exact List.dropLast_prefix path
    · exact List.rdropWhile_prefix isLineEnd path
  · rintro ⟨rest, rfl⟩
    split_ifs with slash
    · rcases List.eq_nil_or_concat rest with rfl | ⟨front, last, rfl⟩
      · exact absurd slash (by decide)
      · rw [List.concat_eq_append, ← List.append_assoc, List.dropLast_concat]
        exact List.prefix_append _ _
    · clear slash
      induction rest using List.reverseRecOn with
      | nil => decide
      | append_singleton front last ih =>
          rw [← List.append_assoc]
          cases lineEnd : isLineEnd last with
          | true =>
              rw [List.rdropWhile_concat_pos _ _ _ lineEnd]
              exact ih
          | false =>
              rw [List.rdropWhile_concat_neg _ _ _ (by simp [lineEnd]), List.append_assoc]
              exact List.prefix_append _ _

private theorem page_of_trimmed (lib : Chomp) (path : List Char) :
    (pageOf (trimmed lib path) = .index ↔ path = ['/'] ∨ ∀ c ∈ path, isLineEnd c = true) ∧
      (pageOf (trimmed lib path) = .reconnect ↔ "reconnect".toList <+: path) ∧
      pageOf (trimmed lib path) ≠ .notImplemented := by
  have empty : (trimmed lib path).length = 0 ↔
      path = ['/'] ∨ ∀ c ∈ path, isLineEnd c = true := by
    rw [List.length_eq_zero_iff, trimmed_eq]
    split_ifs with slash
    · rcases List.eq_nil_or_concat path with rfl | ⟨front, last, rfl⟩
      · cases slash
      · rw [List.concat_eq_append, List.getLast?_concat] at slash
        obtain rfl := Option.some.inj slash
        rw [List.concat_eq_append, List.dropLast_concat]
        constructor
        · rintro rfl
          exact .inl rfl
        · rintro (same | ends)
          · exact List.append_cancel_right (same.trans (List.nil_append _).symm)
          · exact absurd (ends '/' List.mem_concat_self) (by decide)
    · rw [List.rdropWhile_eq_nil_iff]
      refine ⟨.inr, Or.rec ?_ id⟩
      rintro rfl
      exact absurd rfl slash
  have apart : (trimmed lib path).length = 0 → ¬ "reconnect".toList <+: path := by
    intro none start
    have long := ((reconnect_prefix_iff lib path).mpr start).length_le
    rw [none] at long
    exact absurd long (by decide)
  simp only [pageOf, List.isPrefixOf_iff_prefix, reconnect_prefix_iff]
  by_cases none : (trimmed lib path).length = 0
  · rw [if_pos none]
    exact ⟨iff_of_true rfl (empty.mp none), iff_of_false (by decide) (apart none),
      (by decide)⟩
  · have some : ¬ (path = ['/'] ∨ ∀ c ∈ path, isLineEnd c = true) := fun h => none (empty.mpr h)
    rw [if_neg none]
    split_ifs with start
    · exact ⟨iff_of_false (by decide) some, iff_of_true (by decide) start, (by decide)⟩
    · exact ⟨iff_of_false (by decide) some, iff_of_false (by decide) start,
        (by decide)⟩

end path

section request

variable (lib : Chomp)

/-- A client gets one answer at most, and its connection is closed behind it, unless the program is
ending. The index is sent for an empty path, the reconnect page for every path that begins with this
word, and nothing else is found; what is no such request is not implemented. -/
theorem answers (client : Client) (going : client.keepGoing = true)
    (allocated : client.allocated = true) :
    (client.lines = [] ↔ (processWebRequest lib client).1 = [.closed]) ∧
      ∀ line ∈ client.lines.head?, ∃ page,
        (processWebRequest lib client).1 = [.answer page, .closed] ∧
          (page = .notImplemented ↔ ¬ ∃ path, Asks (readString line).1 path) ∧
          ∀ path, Asks (readString line).1 path →
            (page = .index ↔ path = ['/'] ∨ ∀ c ∈ path, isLineEnd c = true) ∧
              (page = .reconnect ↔ "reconnect".toList <+: path) := by
  rw [processWebRequest, if_neg (not_not.mpr going), if_neg (not_not.mpr allocated)]
  cases client.lines with
  | nil =>
      refine ⟨iff_of_true rfl rfl, ?_⟩
      rintro line ⟨⟩
  | cons line rest =>
      dsimp only
      cases found : requestPath (readString line) with
      | none =>
          have nothing : ∀ path, ¬ Asks (readString line).1 path := by
            intro path asks
            rw [requestPath_eq_some.mpr asks] at found
            cases found
          refine ⟨by simp, ?_⟩
          rintro _ ⟨⟩
          exact ⟨.notImplemented, rfl, by simp [nothing], fun path asks => absurd asks (nothing _)⟩
      | some path =>
          have asks := requestPath_eq_some.mp found
          obtain ⟨index, reconnect, other⟩ := page_of_trimmed lib path
          refine ⟨by simp, ?_⟩
          rintro _ ⟨⟩
          refine ⟨pageOf (trimmed lib path), rfl, ?_, ?_⟩
          · exact iff_of_false other (not_not.mpr ⟨path, asks⟩)
          · intro path' asks'
            have same := found.symm.trans (requestPath_eq_some.mpr asks')
            obtain rfl := Option.some.inj same
            exact ⟨index, reconnect⟩

/-- A request for the reconnect page, with a header. -/
def sampleClient : Client where
  keepGoing := true
  allocated := true
  lines := ["GET /reconnect/ HTTP/1.0\r\n".toList, "Host: tv\r\n".toList, "\r\n".toList]

def sampleChomp : Chomp := ⟨fun text => text.rdropWhile isLineEnd, fun _ => rfl⟩

theorem answers_sample :
    (processWebRequest sampleChomp sampleClient).1 = [.answer .reconnect, .closed] := by
  obtain ⟨page, sent, -, pages⟩ := (answers sampleChomp sampleClient rfl rfl).2
    "GET /reconnect/ HTTP/1.0\r\n".toList rfl
  have asks : Asks (readString "GET /reconnect/ HTTP/1.0\r\n".toList).1 "reconnect/".toList :=
    ⟨by decide, ".0\r\n".toList, by decide⟩
  rw [sent, (pages _ asks).2.mpr (by decide)]

end request

end Mptsd.Web.Request
