/- Unit: Mptsd/Network/Response
   source: src/network.c (connect_source, DO_RECONNECT, FATAL_ERROR)
   digest: The answer of a source to the request for its stream, and which answers are taken for
   a stream. -/

import Mptsd.Reload.Load

set_option autoImplicit false
set_option relaxedAutoImplicit false

namespace Mptsd.Network.Response

open Mptsd.Ini (digitValue readDigits)
open Mptsd.Reload.Load (isSpace toNat_of_isDigit)

/-- The text that `fdgetline` leaves in `buf`. -/
abbrev Line := List Char

/-- `(int) strtol(nptr, NULL, 10)`. -/
def atoi (nptr : Line) : ℤ :=
  let text := nptr.dropWhile isSpace
  let signed : ℤ × Line :=
    match text with
    | '-' :: rest => (-1, rest)
    | '+' :: rest => (1, rest)
    | _ => (1, text)
  (max (-2 ^ 63) (min (2 ^ 63 - 1) (signed.1 * readDigits 10 0 signed.2))).bmod (2 ^ 32)

/-- `strstr(haystack, needle) != NULL`. -/
def strstr (haystack : Line) (needle : String) : Bool :=
  needle.toList <:+: haystack

/-- The groups of `^HTTP/1.[0-1] (([0-9]{3}) .*)`. The first of its dots stands for any
character. -/
def regexec (buf : Line) : Option (Line × Line) :=
  match buf.drop 6 with
  | _ :: minor :: ' ' :: a :: b :: c :: ' ' :: rest =>
      if buf.take 6 = "HTTP/1".toList ∧ (minor = '0' ∨ minor = '1') ∧
          a.isDigit ∧ b.isDigit ∧ c.isDigit then
        some (a :: b :: c :: ' ' :: rest, [a, b, c])
      else none
  | _ => none

/-- The code after a line, from the code before it. The text from the code on has to fit into
`xresponse`. -/
def readStatus (httpCode : ℤ) (buf : Line) : ℤ :=
  if strstr buf "HTTP/1." then
    match regexec buf with
    | some (xresponse, codestr) => if xresponse.length < 128 then atoi codestr else httpCode
    | none => httpCode
  else httpCode

def isBlank : Line → Bool
  | '\n' :: _ => true
  | '\r' :: _ => true
  | _ => false

/-- `*http_code` when the lines are read. -/
def responseLoop (httpCode : ℤ) : List Line → ℤ
  | [] => httpCode
  | buf :: rest =>
      if isBlank buf then httpCode
      else
        let httpCode := readStatus httpCode buf
        if httpCode = 504 then
          if strstr buf "X-ErrorCode: " then atoi (buf.drop 13)
          else responseLoop httpCode rest
        else responseLoop httpCode rest

/-- `DO_RECONNECT`. -/
def doReconnect (retries : ℤ) (dienow : Bool) : ℤ :=
  if retries = 0 then -1
  else if dienow then -1
  else 1

/-- `FATAL_ERROR`. -/
def fatalError : ℤ := -1

/-- The checks after the loop. Nothing is returned when the connection is continued. -/
def checkResponse (httpCode : ℤ) (retries : ℤ) (dienow : Bool) : Option ℤ :=
  if httpCode = 0 then some (doReconnect retries dienow)
  else if httpCode = 504 then some fatalError
  else if httpCode > 300 then some fatalError
  else none

inductive ChannelSource
  | udpSock
  | tcpSock
  deriving DecidableEq

/-- What the calls that `connect_source` makes return to it. -/
structure Answers where
  /-- The protocol of the channel's source, when that can be parsed. -/
  src : Option ChannelSource
  resolveHost : ℤ
  socket : ℤ
  doConnect : ℤ
  lines : List Line
  multicast : Bool
  addMembership : ℤ
  bind : ℤ
  dienow : Bool

def connectSource (a : Answers) (retries : ℤ) : ℤ :=
  match a.src with
  | none => fatalError
  | some sproto =>
      if a.resolveHost ≠ 0 then doReconnect retries a.dienow
      else
        match sproto with
        | .tcpSock =>
            if a.socket < 0 then fatalError
            else if a.doConnect < 0 then doReconnect retries a.dienow
            else (checkResponse (responseLoop 0 a.lines) retries a.dienow).getD 0
        | .udpSock =>
            if a.socket < 0 then fatalError
            else if a.multicast ∧ a.addMembership < 0 then fatalError
            else if a.bind < 0 then fatalError
            else 0

/-- The lines that the loop reads, up to the one it ends at. -/
def received (httpCode : ℤ) : List Line → List Line
  | [] => []
  | buf :: rest =>
      if isBlank buf then []
      else if readStatus httpCode buf = 504 ∧ strstr buf "X-ErrorCode: " then [buf]
      else buf :: received (readStatus httpCode buf) rest

/-- The code of a valid status line. -/
def statusCode (buf : Line) : Option ℤ :=
  if strstr buf "HTTP/1." then (regexec buf).map fun groups => atoi groups.2 else none

/-- The code of a valid status line that fits into `xresponse`. -/
def shortCode (buf : Line) : Option ℤ :=
  if strstr buf "HTTP/1." then
    (regexec buf).bind fun groups =>
      if groups.1.length < 128 then some (atoi groups.2) else none
  else none

/-- The code of the last valid status line. -/
def lastStatus (read : List Line) : Option ℤ := (read.filterMap statusCode).getLast?

/-- The code of the last status line that fits. -/
def lastShort (read : List Line) : Option ℤ := (read.filterMap shortCode).getLast?

/-- The code that a stream may follow. -/
def Accepted (code : ℤ) : Prop := 0 < code ∧ code ≤ 300

/-- The lines end at an extra error code to a status of 504. -/
def EndsAtErrorCode (read : List Line) : Prop :=
  lastShort read = some 504 ∧ strstr (read.getLast?.getD []) "X-ErrorCode: "

/-- The extra error code, at its usual place in the last line. -/
def errorCode (read : List Line) : ℤ := atoi ((read.getLast?.getD []).drop 13)

/-- The last valid status line has another code than one that a stream may follow. -/
def Refused (read : List Line) : Prop := ∃ code, lastStatus read = some code ∧ ¬ Accepted code

/-- A valid status line says that there is no signal. -/
def NoSignal (read : List Line) : Prop := ∃ buf ∈ read, statusCode buf = some 504

/-- The code that passes the checks is an extra error code to a status of 504. -/
def Overridden (read : List Line) : Prop :=
  EndsAtErrorCode read ∧ checkResponse (errorCode read) 0 false = none

/-- The code that passes the checks is that of the last status line that fits. -/
def Taken (read : List Line) : Prop := ∃ code, lastShort read = some code ∧ Accepted code

/-- The last status line that fits passes the checks, and the last status line does not. -/
def Overlooked (read : List Line) : Prop := Taken read ∧ Refused read

/-- A later status line makes up for one that says 504. -/
def Replaced (read : List Line) : Prop := Taken read ∧ NoSignal read

section line

variable {buf : Line} {code : ℤ} {read : List Line}

private theorem readDigits_lt (value : ℕ) (digits : Line) :
    readDigits 10 value digits < (value + 1) * 10 ^ digits.length := by
  induction digits generalizing value with
  | nil => simp [readDigits]
  | cons c rest ih =>
      rw [List.length_cons, pow_succ]
      rw [readDigits]
      split
      · rename_i digit
        calc readDigits 10 (value * 10 + digitValue c) rest
            < (value * 10 + digitValue c + 1) * 10 ^ rest.length := ih _
          _ ≤ ((value + 1) * 10) * 10 ^ rest.length := Nat.mul_le_mul_right _ (by omega)
          _ = (value + 1) * (10 ^ rest.length * 10) := by ring
      · have := Nat.one_le_pow rest.length 10 (by decide)
        nlinarith

private theorem atoi_nonneg {a b c : Char} (digit : a.isDigit) : 0 ≤ atoi [a, b, c] := by
  obtain ⟨low, high⟩ := toNat_of_isDigit digit
  have solid : ([a, b, c] : Line).dropWhile isSpace = [a, b, c] := by
    have : isSpace a = false := by
      have blank : a ≠ ' ' := by
        rintro rfl
        exact absurd low (by decide)
      simp [isSpace, blank]
      omega
    simp [this]
  have minus : a ≠ '-' := by
    rintro rfl
    exact absurd low (by decide)
  have plus : a ≠ '+' := by
    rintro rfl
    exact absurd low (by decide)
  have small := readDigits_lt 0 [a, b, c]
  unfold atoi
  rw [solid]
  dsimp only
  split
  · rename_i h
    exact absurd (List.cons.inj h).1 minus
  · rename_i h
    exact absurd (List.cons.inj h).1 plus
  · dsimp only [List.length_cons, List.length_nil] at small
    have bound : max (-2 ^ 63) (min (2 ^ 63 - 1) (1 * (readDigits 10 0 [a, b, c] : ℤ))) =
        readDigits 10 0 [a, b, c] := by omega
    rw [bound, Int.bmod_eq_of_le (by omega) (by omega)]
    omega

private theorem statusCode_eq_of_shortCode (short : shortCode buf = some code) :
    statusCode buf = some code := by
  rw [shortCode] at short
  rw [statusCode]
  split at short
  · rename_i status
    rw [if_pos status]
    obtain ⟨groups, found, fits⟩ := Option.bind_eq_some_iff.mp short
    split at fits
    · rw [found, Option.map_some, ← fits]
    · cases fits
  · cases short

private theorem shortCode_nonneg (short : shortCode buf = some code) : 0 ≤ code := by
  rw [shortCode] at short
  split at short
  · obtain ⟨groups, found, fits⟩ := Option.bind_eq_some_iff.mp short
    split at fits
    · cases fits
      rw [regexec] at found
      split at found
      · split at found
        · rename_i digits
          cases found
          exact atoi_nonneg digits.2.2.1
        · cases found
      · cases found
    · cases fits
  · cases short

private theorem readStatus_eq (httpCode : ℤ) (buf : Line) :
    readStatus httpCode buf = (shortCode buf).getD httpCode := by
  rw [readStatus, shortCode]
  split
  · cases regexec buf with
    | none => rfl
    | some groups =>
        dsimp only [Option.bind_some]
        split <;> rfl
  · rfl

private theorem lastShort_append (read : List Line) (buf : Line) :
    lastShort (read ++ [buf]) = (shortCode buf).or (lastShort read) := by
  unfold lastShort
  rw [List.filterMap_append]
  cases short : shortCode buf with
  | none => simp [short]
  | some code => simp [short]

private theorem lastShort_nonneg (last : lastShort read = some code) : 0 ≤ code := by
  obtain ⟨buf, -, short⟩ := List.mem_filterMap.mp (List.mem_of_getLast? last)
  exact shortCode_nonneg short

private theorem exists_status_of_lastShort (last : lastShort read = some code) :
    ∃ buf ∈ read, statusCode buf = some code := by
  obtain ⟨buf, member, short⟩ := List.mem_filterMap.mp (List.mem_of_getLast? last)
  exact ⟨buf, member, statusCode_eq_of_shortCode short⟩

private theorem lastStatus_of_lastShort (last : lastShort read = some code) :
    ∃ code', lastStatus read = some code' := by
  obtain ⟨buf, member, status⟩ := exists_status_of_lastShort last
  have valid := List.mem_filterMap.mpr ⟨buf, member, status⟩
  exact Option.ne_none_iff_exists'.mp (mt List.getLast?_eq_none_iff.mp (List.ne_nil_of_mem valid))

private theorem readStatus_held (read : List Line) (buf : Line) :
    readStatus ((lastShort read).getD 0) buf = (lastShort (read ++ [buf])).getD 0 := by
  rw [readStatus_eq, lastShort_append]
  cases shortCode buf <;> rfl

private theorem endsAtErrorCode_append (read : List Line) (buf : Line) :
    EndsAtErrorCode (read ++ [buf]) ↔
      readStatus ((lastShort read).getD 0) buf = 504 ∧ strstr buf "X-ErrorCode: " := by
  rw [readStatus_held]
  rw [EndsAtErrorCode]
  rw [List.getLast?_concat, Option.getD_some]
  refine and_congr_left fun _ => ?_
  cases lastShort (read ++ [buf]) with
  | none => simp
  | some code => simp

end line

private theorem responseLoop_spec (lines : List Line) (read : List Line)
    (goesOn : ¬ EndsAtErrorCode read) :
    let all := read ++ received ((lastShort read).getD 0) lines
    (EndsAtErrorCode all → responseLoop ((lastShort read).getD 0) lines = errorCode all) ∧
      (¬ EndsAtErrorCode all →
        responseLoop ((lastShort read).getD 0) lines = (lastShort all).getD 0) := by
  induction lines generalizing read with
  | nil =>
      simp only [received, responseLoop, List.append_nil]
      exact ⟨fun ends => absurd ends goesOn, fun _ => trivial⟩
  | cons buf rest ih =>
      rw [received, responseLoop]
      by_cases blank : isBlank buf
      · simp only [blank, if_true, List.append_nil]
        exact ⟨fun ends => absurd ends goesOn, fun _ => trivial⟩
      · rw [if_neg blank, if_neg blank]
        by_cases ends : readStatus ((lastShort read).getD 0) buf = 504 ∧
            strstr buf "X-ErrorCode: "
        · simp only [if_pos ends, if_pos ends.1, if_pos ends.2]
          refine ⟨fun _ => ?_, fun later => ?_⟩
          · rw [errorCode]
            rw [List.getLast?_concat, Option.getD_some]
          · exact absurd ((endsAtErrorCode_append read buf).mpr ends) later
        · have later := ih (read ++ [buf]) (mt (endsAtErrorCode_append read buf).mp ends)
          rw [← readStatus_held, List.append_assoc, List.singleton_append] at later
          have passed : (if readStatus ((lastShort read).getD 0) buf = 504 then
              if strstr buf "X-ErrorCode: " then atoi (buf.drop 13)
              else responseLoop (readStatus ((lastShort read).getD 0) buf) rest
            else responseLoop (readStatus ((lastShort read).getD 0) buf) rest) =
              responseLoop (readStatus ((lastShort read).getD 0) buf) rest := by
            by_cases noSignal : readStatus ((lastShort read).getD 0) buf = 504
            · rw [if_pos noSignal, if_neg fun header => ends ⟨noSignal, header⟩]
            · rw [if_neg noSignal]
          simp only [if_neg ends, passed]
          exact later

private theorem responseLoop_zero (lines : List Line) :
    (EndsAtErrorCode (received 0 lines) →
        responseLoop 0 lines = errorCode (received 0 lines)) ∧
      (¬ EndsAtErrorCode (received 0 lines) →
        responseLoop 0 lines = (lastShort (received 0 lines)).getD 0) :=
  responseLoop_spec lines [] (by simp [EndsAtErrorCode, lastShort])

section check

variable {httpCode : ℤ} {retries : ℤ} {dienow : Bool}

private theorem doReconnect_ne_zero (retries : ℤ) (dienow : Bool) :
    doReconnect retries dienow ≠ 0 := by
  rw [doReconnect]
  split
  · decide
  · split <;> decide

private theorem checkResponse_eq_none_iff :
    checkResponse httpCode retries dienow = none ↔
      httpCode ≠ 0 ∧ httpCode ≠ 504 ∧ httpCode ≤ 300 := by
  rw [checkResponse]
  by_cases invalid : httpCode = 0
  · simp [invalid]
  · by_cases noSignal : httpCode = 504
    · simp [noSignal]
    · by_cases failed : httpCode > 300
      · simp [invalid, noSignal, failed]
      · simp [invalid, noSignal, failed, not_lt.mp failed]

private theorem checkResponse_getD (httpCode : ℤ) (retries : ℤ) (dienow : Bool) :
    (checkResponse httpCode retries dienow).getD 0 = 0 ↔
      checkResponse httpCode retries dienow = none := by
  rw [checkResponse, fatalError]
  have retried := doReconnect_ne_zero retries dienow
  split_ifs <;> simp [retried]

private theorem checkResponse_eq_none_iff_accepted (nonneg : 0 ≤ httpCode) :
    checkResponse httpCode retries dienow = none ↔ Accepted httpCode := by
  rw [checkResponse_eq_none_iff]
  rw [Accepted]
  omega

end check

private theorem connectSource_tcp (a : Answers) (retries : ℤ) (tcp : a.src = some .tcpSock) :
    connectSource a retries = 0 ↔
      a.resolveHost = 0 ∧ 0 ≤ a.socket ∧ 0 ≤ a.doConnect ∧
        checkResponse (responseLoop 0 a.lines) retries a.dienow = none := by
  have retried := doReconnect_ne_zero retries a.dienow
  rw [connectSource]
  rw [tcp, ← checkResponse_getD]
  by_cases resolved : a.resolveHost = 0
  · by_cases opened : a.socket < 0
    · simp [resolved, opened, fatalError]
    · by_cases connected : a.doConnect < 0
      · simp [resolved, opened, connected, retried]
      · simp [resolved, opened, connected, not_lt.mp opened, not_lt.mp connected]
  · simp [resolved, retried]

/-- The calls of the system for an answer that is received without trouble. -/
def Answers.smooth (lines : List Line) : Answers where
  src := some .tcpSock
  resolveHost := 0
  socket := 3
  doConnect := 0
  lines
  multicast := false
  addMembership := 0
  bind := 0
  dienow := false

private theorem connectSource_smooth (lines : List Line) :
    connectSource (Answers.smooth lines) 0 = 0 ↔
      checkResponse (responseLoop 0 lines) 0 false = none := by
  rw [connectSource_tcp _ 0 rfl]
  constructor
  · exact fun all => all.2.2.2
  · exact fun passes => ⟨rfl, (by decide : (0 : ℤ) ≤ 3), le_refl (0 : ℤ), passes⟩

section outcome

variable {lines : List Line} {retries : ℤ} {dienow : Bool}

private theorem passes_iff :
    checkResponse (responseLoop 0 lines) retries dienow = none ↔
      Overridden (received 0 lines) ∨ Taken (received 0 lines) := by
  by_cases ends : EndsAtErrorCode (received 0 lines)
  · have untaken : ¬ Taken (received 0 lines) := by
      rintro ⟨code, last, accepted⟩
      rw [ends.1] at last
      cases last
      exact absurd accepted.2 (by decide)
    rw [(responseLoop_zero lines).1 ends, or_iff_left untaken, Overridden, and_iff_right ends,
      checkResponse_eq_none_iff, checkResponse_eq_none_iff]
  · have kept : ¬ Overridden (received 0 lines) := fun overridden => ends overridden.1
    rw [(responseLoop_zero lines).2 ends, or_iff_right kept, Taken]
    cases last : lastShort (received 0 lines) with
    | none => simp [checkResponse_eq_none_iff]
    | some code =>
        rw [Option.getD_some, checkResponse_eq_none_iff_accepted (lastShort_nonneg last)]
        simp

private theorem accepted_of_taken (taken : Taken (received 0 lines))
    (unrefused : ¬ Refused (received 0 lines)) :
    ∃ code, lastStatus (received 0 lines) = some code ∧ Accepted code := by
  obtain ⟨short, last, -⟩ := taken
  obtain ⟨code, valid⟩ := lastStatus_of_lastShort last
  refine ⟨code, valid, ?_⟩
  by_contra refused
  exact unrefused ⟨code, valid, refused⟩

end outcome

/-- Whatever lines a source answers with: connecting to it succeeds only after a last valid status
line with a code from 1 to 300, and never when a valid status line says 504, if and only if no
extra error code is taken for the status, no status line that is too long says something else than
the one before it, and none with an accepted code comes after one that says 504. -/
theorem connected_only_accepted_iff (lines : List Line) :
    ((∀ (a : Answers) (retries : ℤ), a.src = some .tcpSock → a.lines = lines →
        connectSource a retries = 0 →
          ∃ code, lastStatus (received 0 lines) = some code ∧ 0 < code ∧ code ≤ 300) ∧
      ∀ (a : Answers) (retries : ℤ), a.src = some .tcpSock → a.lines = lines →
        (∃ buf ∈ received 0 lines, statusCode buf = some 504) → connectSource a retries ≠ 0) ↔
      ¬ Overridden (received 0 lines) ∧ ¬ Overlooked (received 0 lines) ∧
        ¬ Replaced (received 0 lines) := by
  constructor
  · rintro ⟨only, never⟩
    have connects : Overridden (received 0 lines) ∨ Taken (received 0 lines) →
        connectSource (Answers.smooth lines) 0 = 0 := fun either =>
      (connectSource_smooth lines).mpr (passes_iff.mpr either)
    refine ⟨?_, ?_, ?_⟩
    · intro overridden
      have noSignal := exists_status_of_lastShort overridden.1.1
      exact never (Answers.smooth lines) 0 rfl rfl noSignal (connects (Or.inl overridden))
    · rintro ⟨taken, code, last, refused⟩
      obtain ⟨code', last', accepted⟩ :=
        only (Answers.smooth lines) 0 rfl rfl (connects (Or.inr taken))
      rw [last] at last'
      cases last'
      exact refused accepted
    · rintro ⟨taken, noSignal⟩
      exact never (Answers.smooth lines) 0 rfl rfl noSignal (connects (Or.inr taken))
  · rintro ⟨kept, seen, first⟩
    have taken : ∀ (a : Answers) (retries : ℤ), a.src = some .tcpSock → a.lines = lines →
        connectSource a retries = 0 → Taken (received 0 lines) := by
      rintro a retries tcp rfl connected
      have passes := ((connectSource_tcp a retries tcp).mp connected).2.2.2
      exact (passes_iff.mp passes).resolve_left kept
    constructor
    · intro a retries tcp answer connected
      have passed := taken a retries tcp answer connected
      exact accepted_of_taken passed fun refused => seen ⟨passed, refused⟩
    · intro a retries tcp answer noSignal connected
      exact first ⟨taken a retries tcp answer connected, noSignal⟩

/-- A source that has no signal and says so with an extra error code of 200, and one that goes on
with another status line. -/
theorem no_signal_connected :
    (lastStatus (received 0 ["HTTP/1.1 504 Gateway Time-out\r\n".toList,
          "X-ErrorCode: 200\r\n".toList]) = some 504 ∧
        connectSource (Answers.smooth ["HTTP/1.1 504 Gateway Time-out\r\n".toList,
          "X-ErrorCode: 200\r\n".toList]) 1 = 0) ∧
      (∃ buf ∈ received 0 ["HTTP/1.1 504 Gateway Time-out\r\n".toList,
          "HTTP/1.1 200 OK\r\n".toList], statusCode buf = some 504) ∧
        connectSource (Answers.smooth ["HTTP/1.1 504 Gateway Time-out\r\n".toList,
          "HTTP/1.1 200 OK\r\n".toList]) 1 = 0 := by
  decide +kernel

end Mptsd.Network.Response
