/- Unit: Mptsd/Intake/Life
   source: src/input.c (input_stream, input_check_state), src/network.c (connect_source)
   digest: What holds of the thread of an input as long as it lives: its sockets are closed, its
   sources take turns, three empty reads end a connection, and it stops when it is told to. -/

import Mathlib.Data.List.DropRight
import Mptsd.Intake.Frames
import Mptsd.Intake.Thread
import Mptsd.Sections
import Mptsd.Sources

set_option autoImplicit false
set_option relaxedAutoImplicit false

namespace Mptsd.Intake.Life

open Mptsd.Channels
open Mptsd.Conf (Config sampleConfig)
open Mptsd.Intake.Frames
open Mptsd.Intake.Model
open Mptsd.Intake.Thread
open Mptsd.Network.Sync (mpegSync)
open Mptsd.PsiTables (Libs)
open Mptsd.Sections (sectionLibs)
open Mptsd.TsPacket (Packet)

/-- A socket that is open. -/
def held (sock : ℤ) : Option ℤ := if sock < 0 then none else some sock

/-- An event with the one socket that may be open before it and after it. Nothing stands for a
socket that is lost, or closed without being open. -/
def track : Option ℤ → Event → Option (Option ℤ)
  | none, .opened fd => some (some fd)
  | some _, .opened _ => none
  | none, .closed _ => none
  | some own, .closed fd => if fd = own then some none else none
  | own, _ => some own

def heldAfter (log : List Event) : Option (Option ℤ) := log.foldlM track none

/-- How many of the last events are reads that returned nothing. -/
def zeroRun (log : List Event) : ℕ := (log.rtakeWhile fun e => e = .read 0).length

/-- An attempt to connect begins something that a failover or the end of the worktime ends. -/
def weight : Event → ℤ
  | .attempt _ => 1
  | .failover | .stopped => -1
  | _ => 0

/-- How many attempts have not been ended yet. -/
def debt (log : List Event) : ℤ := (log.map weight).sum

/-- What the log says of the socket, of the source in use and of those used before, where `c` is the
channel the thread began with. -/
structure Records (c : Channel) (w : Worker) : Prop where
  socket : heldAfter w.log = some (held w.sock)
  channel : w.input.channel = chansrcNext^[w.log.count .failover] c
  sources : ∀ before source after, w.log = before ++ .attempt source :: after →
    source = (chansrcNext^[before.count .failover] c).source ∧ debt before = 0

/-- How many attempts are open at the places of the thread. -/
def Pending : Pc → ℤ → Prop
  | .head, k | .waiting, k | .connecting, k => k = 0
  | .quit, k | .ended, k => k = 0 ∨ k = 1
  | _, k => k = 1

/-- Where the thread has no socket. -/
def Shut : Pc → Prop
  | .head | .waiting | .connecting | .ended => True
  | _ => False

/-- What holds at the places of the thread. -/
structure Stands (w : Worker) : Prop where
  shut : Shut w.pc → w.sock < 0
  pending : Pending w.pc (debt w.log)
  zeros : w.pc = .reading → w.zeroReads = 3 - zeroRun w.log ∧ zeroRun w.log ≤ 2

section records

variable {c : Channel} {w : Worker}

private theorem heldAfter_concat {log : List Event} {own : Option ℤ} (e : Event)
    (reached : heldAfter log = some own) : heldAfter (log ++ [e]) = track own e := by
  rw [heldAfter] at reached
  rw [heldAfter, List.foldlM_append, reached]
  simp

private theorem debt_concat (log : List Event) (e : Event) :
    debt (log ++ [e]) = debt log + weight e := by
  simp [debt]

private theorem concat_cases {α : Type} {log before after : List α} {e x : α}
    (found : log ++ [e] = before ++ x :: after) :
    (before = log ∧ x = e) ∨ ∃ earlier, after = earlier ++ [e] ∧ log = before ++ x :: earlier := by
  rcases List.eq_nil_or_concat after with rfl | ⟨earlier, last, rfl⟩
  · obtain ⟨same, own⟩ := List.append_inj' found rfl
    exact .inl ⟨same.symm, (List.singleton_inj.mp own).symm⟩
  · rw [List.concat_eq_append, ← List.cons_append, ← List.append_assoc] at found
    obtain ⟨same, own⟩ := List.append_inj' found rfl
    obtain rfl := List.singleton_inj.mp own
    exact .inr ⟨earlier, List.concat_eq_append, same⟩

/-- An event that has to do with no socket and no source. -/
def Neutral : Event → Prop
  | .begun | .read _ | .stopped | .freed => True
  | _ => False

theorem Neutral.count {e : Event} (neutral : Neutral e) (log : List Event) :
    (log ++ [e]).count .failover = log.count .failover := by
  rw [List.count_append, List.count_singleton]
  cases e <;> first | rfl | exact absurd neutral id

theorem Records.note (h : Records c w) {e : Event} (neutral : Neutral e) :
    Records c (w.note e) where
  socket := by
    rw [Worker.note, heldAfter_concat e h.socket]
    cases e <;> first | exact absurd neutral id | (cases held w.sock <;> rfl)
  channel := by
    rw [Worker.note, neutral.count]
    exact h.channel
  sources before source after found := by
    rcases concat_cases found with ⟨-, rfl⟩ | ⟨earlier, -, there⟩
    · exact absurd neutral id
    · exact h.sources before source earlier there

private theorem Records.attempt (h : Records c w) (even : debt w.log = 0) :
    Records c (w.note (.attempt w.input.channel.source)) where
  socket := by
    rw [Worker.note, heldAfter_concat _ h.socket]
    cases held w.sock <;> rfl
  channel := by
    rw [Worker.note, List.count_append, List.count_singleton]
    exact h.channel
  sources before source after found := by
    rcases concat_cases found with ⟨rfl, same⟩ | ⟨earlier, -, there⟩
    · rw [← h.channel]
      exact ⟨Event.attempt.inj same, even⟩
    · exact h.sources before source earlier there

private theorem Records.track (h : Records c w) {e : Event} {sock : ℤ} (stays : e ≠ .failover)
    (asks : ∀ source, e ≠ .attempt source)
    (tracked : Life.track (held w.sock) e = some (held sock)) :
    Records c { w with sock, log := w.log ++ [e] } where
  socket := (heldAfter_concat e h.socket).trans tracked
  channel := by
    have other : [e].count .failover = 0 :=
      List.count_eq_zero.mpr (List.mem_singleton.not.mpr stays.symm)
    rw [List.count_append, other]
    exact h.channel
  sources before source after found := by
    rcases concat_cases found with ⟨-, same⟩ | ⟨earlier, -, there⟩
    · exact absurd same.symm (asks source)
    · exact h.sources before source earlier there

theorem Records.setSock (h : Records c w) (shut : w.sock < 0) (fd : ℤ) :
    Records c (w.setSock fd) := by
  have none : held w.sock = none := if_pos shut
  have socket := h.socket
  rw [none] at socket
  rw [Worker.setSock]
  split_ifs with negative
  · rw [List.append_nil]
    exact ⟨by rw [held, if_pos negative]; exact socket, h.channel, h.sources⟩
  · refine h.track Event.noConfusion (fun _ => Event.noConfusion) ?_
    rw [none, held, if_neg negative]
    rfl

theorem Records.shutdownFd (lib : Libs) (h : Records c w) : Records c (w.shutdownFd lib) := by
  rcases lt_or_ge w.sock 0 with negative | open_
  · obtain ⟨sock, left, same⟩ := w.shutdownFd_of_shut lib negative
    have socket := h.socket
    rw [held, if_pos negative] at socket
    rw [same]
    exact ⟨by rw [held, if_pos left]; exact socket, h.channel, h.sources⟩
  · rw [w.shutdownFd_of_open lib open_]
    refine h.track Event.noConfusion (fun _ => Event.noConfusion) ?_
    rw [held, if_neg (not_lt.mpr open_)]
    exact if_pos rfl

theorem Records.failover (h : Records c w) :
    Records c ({ w with
      input := { w.input with channel := chansrcNext w.input.channel } }.note .failover) where
  socket := by
    rw [Worker.note, heldAfter_concat _ h.socket]
    cases held w.sock <;> rfl
  channel := by
    rw [Worker.note, List.count_append, List.count_singleton_self, Function.iterate_succ_apply',
      ← h.channel]
  sources before source after found := by
    rcases concat_cases found with ⟨-, wrong⟩ | ⟨earlier, -, there⟩
    · cases wrong
    · exact h.sources before source earlier there

theorem Records.frame (h : Records c w) (w' : Worker) (log : w'.log = w.log)
    (sock : w'.sock = w.sock) (channel : w'.input.channel = w.input.channel) : Records c w' := by
  refine ⟨?_, ?_, ?_⟩
  · rw [log, sock]
    exact h.socket
  · rw [channel, log]
    exact h.channel
  · rw [log]
    exact h.sources

end records

section input

variable {lib : Libs} {conf : Config} {r : Input} {p : Packet}

private theorem kept_inputPacket : (inputPacket lib conf r p).2.channel = r.channel ∧
    (inputPacket lib conf r p).2.dienow = r.dienow := by
  have added : ∀ (x : Input) data, (inputBufferAdd lib x data).channel = x.channel ∧
      (inputBufferAdd lib x data).dienow = x.dienow := by
    intro x data
    rw [inputBufferAdd]
    dsimp only
    split_ifs <;> exact ⟨rfl, rfl⟩
  have pat : ∀ pid p, (processPat lib r pid p).2.1.channel = r.channel ∧
      (processPat lib r pid p).2.1.dienow = r.dienow := by
    intro pid p
    obtain ⟨_, _, _, _, _, _, _, same⟩ := processPat_frame lib r pid p
    rw [same]
    exact ⟨rfl, rfl⟩
  have pmt : ∀ (x : Input) pid p, (processPmt lib x pid p).2.channel = x.channel ∧
      (processPmt lib x pid p).2.dienow = x.dienow := by
    intro x pid p
    obtain ⟨y, ⟨_, _, _, _, _, _, _, rfl⟩, same | ⟨data, same⟩⟩ := processPmt_frame lib x pid p
    · rw [same]
      exact ⟨rfl, rfl⟩
    · rw [same, (added _ data).1, (added _ data).2]
      exact ⟨rfl, rfl⟩
  have eit : ∀ (x : Input) p, (processEit lib conf x p).2.channel = x.channel ∧
      (processEit lib conf x p).2.dienow = x.dienow := by
    intro x p
    obtain ⟨y, ⟨_, _, rfl⟩, same | ⟨P, same⟩⟩ := processEit_frame lib x conf p
    · rw [same]
      exact ⟨rfl, rfl⟩
    · rw [same, emitEit]
      exact added _ _
  have forward : ∀ (x : Input) pid p, (forwardPacket lib x pid p).channel = x.channel ∧
      (forwardPacket lib x pid p).dienow = x.dienow := by
    intro x pid p
    obtain ⟨_, same | ⟨data, _, same⟩⟩ := forwardPacket_frame lib x pid p
    · rw [same]
      exact ⟨rfl, rfl⟩
    · rw [same]
      exact added _ data
  rw [inputPacket]
  dsimp only
  split_ifs
  · exact ⟨rfl, rfl⟩
  · exact pat _ _
  · exact pat _ _
  · rw [(pmt _ _ _).1, (pmt _ _ _).2]
    exact pat _ _
  · rw [(pmt _ _ _).1, (pmt _ _ _).2]
    exact pat _ _
  · rw [(eit _ _).1, (eit _ _).2, (pmt _ _ _).1, (pmt _ _ _).2]
    exact pat _ _
  · rw [(pmt _ _ _).1, (pmt _ _ _).2]
    exact pat _ _
  · rw [(forward _ _ _).1, (forward _ _ _).2, (pmt _ _ _).1, (pmt _ _ _).2]
    exact pat _ _

private theorem meanwhile_input (w : Worker) (e : Env) : ∃ buf, (w.meanwhile e).input =
    { w.input with buf, dienow := w.input.dienow || e.dienow } := by
  have taken : ∀ n (r : Input), ∃ buf,
      (fun r : Input => { r with buf := (Mptsd.PsiTables.cbufGet r.buf).2 })^[n] r =
        { r with buf } := by
    intro n
    induction n with
    | zero => exact fun r => ⟨r.buf, rfl⟩
    | succ n ih => exact fun r => ih _
  obtain ⟨buf, same⟩ := taken e.takes w.input
  refine ⟨buf, ?_⟩
  rw [Worker.meanwhile]
  dsimp only
  rw [same]

private theorem meanwhile_frame (w : Worker) (e : Env) :
    (w.meanwhile e).input.channel = w.input.channel ∧ (w.meanwhile e).sock = w.sock ∧
      (w.meanwhile e).working = w.working ∧ (w.meanwhile e).zeroReads = w.zeroReads ∧
      (w.meanwhile e).pc = w.pc ∧ (w.meanwhile e).log = w.log ∧
      (w.meanwhile e).input.dienow = (w.input.dienow || e.dienow) := by
  obtain ⟨_, same⟩ := meanwhile_input w e
  rw [same]
  exact ⟨rfl, rfl, rfl, rfl, rfl, rfl, rfl⟩

end input

section steps

variable {lib : Libs} {conf : Config} {c : Channel} {w : Worker} {e : Env}

private theorem zeroRun_concat (log : List Event) (e : Event) :
    zeroRun (log ++ [e]) = if e = .read 0 then zeroRun log + 1 else 0 := by
  rw [zeroRun, List.rtakeWhile_concat]
  by_cases empty : e = .read 0 <;> simp [empty, zeroRun]

/-- Both kinds of facts about a thread. -/
structure Alive (c : Channel) (w : Worker) : Prop where
  records : Records c w
  stands : Stands w

theorem Alive.begin (records : Records c w) (open_ : debt w.log = 1) : Alive c (begin lib w) := by
  have noted : Records c (({ w with
      input := inputStreamReset lib w.input
      zeroReads := maxZeroReads } : Worker).note .begun) :=
    (records.frame { w with
      input := inputStreamReset lib w.input
      zeroReads := maxZeroReads } rfl rfl rfl).note trivial
  refine ⟨noted.frame _ rfl rfl rfl, fun shut => absurd shut id, ?_, fun _ => ?_⟩
  · change debt (w.log ++ [.begun]) = 1
    rw [debt_concat, open_]
    rfl
  · change maxZeroReads = 3 - (zeroRun (w.log ++ [.begun]) : ℤ) ∧ zeroRun (w.log ++ [.begun]) ≤ 2
    rw [zeroRun_concat, if_neg (by simp)]
    exact ⟨rfl, Nat.zero_le 2⟩

theorem Records.attemptSource (records : Records c w) (even : debt w.log = 0) (shut : w.sock < 0)
    (e : Env) : Records c (attemptSource w e) ∧ debt (attemptSource w e).log = 1 := by
  have noted : Records c (w.note (.attempt w.input.channel.source)) := records.attempt even
  have open_ : debt (w.note (.attempt w.input.channel.source)).log = 1 := by
    rw [Worker.note, debt_concat, even]
    rfl
  have cleared : ∃ reconnect, (if e.answers.src.isSome then
      { w.note (.attempt w.input.channel.source) with reconnect := false }
      else w.note (.attempt w.input.channel.source)) =
        { w.note (.attempt w.input.channel.source) with reconnect } := by
    split_ifs
    · exact ⟨false, rfl⟩
    · exact ⟨w.reconnect, rfl⟩
  obtain ⟨reconnect, cleared⟩ := cleared
  rw [Thread.attemptSource, cleared]
  have framed := noted.frame { w.note (.attempt w.input.channel.source) with reconnect } rfl rfl rfl
  split_ifs
  · refine ⟨framed.setSock shut _, ?_⟩
    rw [Worker.setSock]
    split_ifs
    · rw [List.append_nil]
      exact open_
    · rw [debt_concat]
      exact (add_zero _).trans open_
  · exact ⟨framed, open_⟩

private theorem Alive.goto (records : Records c w) (open_ : debt w.log = 1) {pc : Pc}
    (other : ¬ Shut pc)
    (pending : Pending pc 1) (elsewhere : pc ≠ .reading) : Alive c (w.goto pc) := by
  refine ⟨records.frame _ rfl rfl rfl, fun shut => absurd shut other, ?_,
    fun here => absurd here elsewhere⟩
  change Pending pc (debt w.log)
  rwa [open_]

private theorem Alive.gotoShut (records : Records c w) (even : debt w.log = 0) (shut : w.sock < 0)
    {pc : Pc}
    (pending : Pending pc 0) (elsewhere : pc ≠ .reading) : Alive c (w.goto pc) := by
  refine ⟨records.frame _ rfl rfl rfl, fun _ => shut, ?_, fun here => absurd here elsewhere⟩
  change Pending pc (debt w.log)
  rwa [even]

theorem Alive.connectStep (h : Alive c w) (here : w.pc = .connecting) :
    Alive c (connectStep lib w e) := by
  have even : debt w.log = 0 := by
    have := h.stands.pending
    rwa [here] at this
  have shut : w.sock < 0 := h.stands.shut (by rw [here]; trivial)
  obtain ⟨records, open_⟩ := h.records.attemptSource even shut e
  rw [Thread.connectStep]
  split_ifs
  · exact .goto records open_ id rfl Pc.noConfusion
  · exact .begin records open_
  · exact .goto records open_ id rfl Pc.noConfusion

theorem Alive.readStep (h : Alive c w) (here : w.pc = .reading) : Alive c (readStep w e) := by
  have open_ : debt w.log = 1 := by
    have := h.stands.pending
    rwa [here] at this
  obtain ⟨left, few⟩ := h.stands.zeros here
  have records := h.records.frame { w with working := e.inWorktime } rfl rfl rfl
  have noted : Records c ({ w with working := e.inWorktime }.note (.read e.readen)) :=
    records.note trivial
  have still : debt ({ w with working := e.inWorktime }.note (.read e.readen)).log = 1 := by
    rw [Worker.note, debt_concat, open_]
    rfl
  have counted := noted.frame { { w with working := e.inWorktime }.note (.read e.readen) with
    zeroReads := w.zeroReads - 1 } rfl rfl rfl
  rw [Thread.readStep]
  dsimp only
  split_ifs with inside dead forced failed empty last
  · exact .goto records open_ id (Or.inr rfl) Pc.noConfusion
  · exact .goto records open_ id rfl Pc.noConfusion
  · exact .goto noted still id rfl Pc.noConfusion
  · exact .goto counted still id rfl Pc.noConfusion
  · refine ⟨counted, ?_, ?_, ?_⟩
    · intro shut
      change Shut w.pc at shut
      rw [here] at shut
      exact absurd shut id
    · change Pending w.pc (debt (w.log ++ [.read e.readen]))
      rw [here, debt_concat, open_]
      rfl
    · intro _
      change w.zeroReads - 1 ≠ 0 at last
      change w.zeroReads - 1 = 3 - (zeroRun (w.log ++ [.read e.readen]) : ℤ) ∧
        zeroRun (w.log ++ [.read e.readen]) ≤ 2
      rw [empty, zeroRun_concat, if_pos rfl]
      omega
  · exact .goto noted still id rfl Pc.noConfusion
  · exact .goto records open_ id rfl Pc.noConfusion

theorem Alive.packetStep (h : Alive c w) {packets : List Packet} (here : w.pc = .packet packets)
    (full : zeroRun w.log = 0) : Alive c (packetStep lib conf w packets) := by
  have open_ : debt w.log = 1 := by
    have := h.stands.pending
    rwa [here] at this
  cases packets with
  | nil =>
      refine ⟨h.records.frame _ rfl rfl rfl, fun shut => absurd shut id, open_, fun _ => ?_⟩
      change maxZeroReads = 3 - (zeroRun w.log : ℤ) ∧ zeroRun w.log ≤ 2
      rw [full]
      exact ⟨rfl, Nat.zero_le 2⟩
  | cons p rest =>
      have records := h.records.frame { w with input := (inputPacket lib conf w.input p).2 } rfl rfl
        kept_inputPacket.1
      rw [Thread.packetStep]
      split
      · exact .goto records open_ id rfl Pc.noConfusion
      · exact .goto records open_ id rfl Pc.noConfusion
      · exact .goto records open_ id (Or.inr rfl) Pc.noConfusion

private theorem shutdownFd_frame (lib : Libs) (w : Worker) : (w.shutdownFd lib).sock < 0 ∧
    debt (w.shutdownFd lib).log = debt w.log ∧ (w.shutdownFd lib).input = w.input := by
  rcases lt_or_ge w.sock 0 with negative | open_
  · obtain ⟨sock, left, same⟩ := w.shutdownFd_of_shut lib negative
    rw [same]
    exact ⟨left, rfl, rfl⟩
  · rw [w.shutdownFd_of_open lib open_]
    exact ⟨neg_one_lt_zero, (debt_concat w.log _).trans (add_zero _), rfl⟩

/-- Where a packet is dealt with, the last read has returned something. -/
def Full (w : Worker) : Prop := ∀ packets, w.pc = .packet packets → zeroRun w.log = 0

theorem Alive.act (h : Alive c w) (full : Full w) : Alive c (act lib conf w e) := by
  have pending := h.stands.pending
  have shut := h.stands.shut
  rw [Thread.act]
  cases here : w.pc with
  | head =>
      rw [here] at pending shut
      dsimp only
      split_ifs
      · exact .gotoShut h.records pending (shut trivial) (.inl rfl) Pc.noConfusion
      · exact .gotoShut h.records pending (shut trivial) rfl Pc.noConfusion
      · exact .gotoShut h.records pending (shut trivial) (.inl rfl) Pc.noConfusion
  | waiting =>
      rw [here] at pending shut
      have worked := h.records.frame { w with working := e.inWorktime } rfl rfl rfl
      dsimp only
      split_ifs
      · exact .gotoShut worked pending (shut trivial) rfl Pc.noConfusion
      · exact ⟨h.records.frame _ rfl rfl rfl, fun _ => shut trivial, pending,
          fun reading => by cases reading⟩
      · exact .gotoShut worked pending (shut trivial) (.inl rfl) Pc.noConfusion
  | connecting => exact h.connectStep here
  | syncing =>
      rw [here] at pending
      dsimp only
      split_ifs
      · exact .begin h.records pending
      · exact .goto h.records pending id rfl Pc.noConfusion
  | reading => exact h.readStep here
  | packet packets => exact h.packetStep here (full packets here)
  | reconnect =>
      rw [here] at pending
      obtain ⟨none, same, -⟩ := shutdownFd_frame lib w
      refine .gotoShut (h.records.shutdownFd lib).failover ?_ none rfl Pc.noConfusion
      rw [Worker.note, debt_concat]
      change debt (w.shutdownFd lib).log + -1 = 0
      rw [same, pending]
      rfl
  | stop =>
      rw [here] at pending
      obtain ⟨none, same, -⟩ := shutdownFd_frame lib w
      have noted : Records c ((w.shutdownFd lib).note .stopped) :=
        (h.records.shutdownFd lib).note trivial
      refine .gotoShut noted ?_ none rfl Pc.noConfusion
      rw [Worker.note, debt_concat, same, pending]
      rfl
  | quit =>
      rw [here] at pending
      have closed : Records c (if w.sock > -1 then w.shutdownFd lib else w) ∧
          debt (if w.sock > -1 then w.shutdownFd lib else w).log = debt w.log ∧
          (if w.sock > -1 then w.shutdownFd lib else w).sock < 0 := by
        obtain ⟨none, same, -⟩ := shutdownFd_frame lib w
        split_ifs with some
        · exact ⟨h.records.shutdownFd lib, same, none⟩
        · exact ⟨h.records, rfl, by omega⟩
      obtain ⟨records, same, none⟩ := closed
      have noted : Records c ((if w.sock > -1 then w.shutdownFd lib else w).note .freed) :=
        records.note trivial
      refine ⟨noted.frame _ rfl rfl rfl, fun _ => none, ?_, fun reading => by cases reading⟩
      change Pending .ended (debt ((if w.sock > -1 then w.shutdownFd lib else w).log ++ [.freed]))
      rw [debt_concat, same]
      exact (add_zero (debt w.log)).symm ▸ pending
  | ended => exact h

theorem Full.act (full : Full w) : Full (act lib conf w e) := by
  intro packets there
  rw [Thread.act] at there ⊢
  cases here : w.pc with
  | head =>
      rw [here] at there
      dsimp only at there
      split_ifs at there <;> cases there
  | waiting =>
      rw [here] at there
      dsimp only at there
      split_ifs at there <;> cases there
  | connecting =>
      rw [here] at there
      dsimp only [connectStep] at there
      split_ifs at there <;> cases there
  | syncing =>
      rw [here] at there
      dsimp only at there
      split_ifs at there <;> cases there
  | reading =>
      rw [here] at there
      dsimp only [readStep] at there ⊢
      split_ifs at there ⊢ with inside dead forced failed empty last
      · cases there
      · cases there
      · cases there
      · cases there
      · change w.pc = _ at there
        rw [here] at there
        cases there
      · change zeroRun (w.log ++ [.read e.readen]) = 0
        rw [zeroRun_concat, if_neg (by simp [empty])]
      · cases there
  | packet rest =>
      rw [here] at there
      dsimp only at there ⊢
      have before := full rest here
      cases rest with
      | nil => cases there
      | cons p rest =>
          rw [packetStep] at there ⊢
          split at there
          · exact before
          · cases there
          · cases there
  | reconnect =>
      rw [here] at there
      cases there
  | stop =>
      rw [here] at there
      cases there
  | quit =>
      rw [here] at there
      cases there
  | ended =>
      rw [here] at there
      dsimp only at there
      rw [here] at there
      cases there

theorem Alive.meanwhile (h : Alive c w) : Alive c (w.meanwhile e) := by
  obtain ⟨channel, sock, -, zeroReads, pc, log, -⟩ := meanwhile_frame w e
  refine ⟨h.records.frame _ log sock channel, ?_, ?_, ?_⟩
  · rw [pc, sock]
    exact h.stands.shut
  · rw [pc, log]
    exact h.stands.pending
  · rw [pc, zeroReads, log]
    exact h.stands.zeros

theorem Full.meanwhile (full : Full w) : Full (w.meanwhile e) := full

theorem alive_run (lib : Libs) (conf : Config) (r : Input) (inWorktime : Bool) (envs : List Env) :
    Alive r.channel (threadRun lib conf (spawned r inWorktime) envs) := by
  suffices both : Alive r.channel (threadRun lib conf (spawned r inWorktime) envs) ∧
      Full (threadRun lib conf (spawned r inWorktime) envs) from both.1
  induction envs using List.reverseRecOn with
  | nil =>
      refine ⟨⟨⟨rfl, rfl, ?_⟩, ⟨fun _ => neg_one_lt_zero, rfl, ?_⟩⟩, ?_⟩
      · intro before source after found
        change [] = before ++ .attempt source :: after at found
        exact absurd found.symm (by simp)
      · exact fun reading => by cases reading
      · exact fun packets there => by cases there
  | append_singleton envs e ih =>
      rw [threadRun, List.foldl_concat]
      exact ⟨ih.1.meanwhile.act ih.2.meanwhile, ih.2.meanwhile.act⟩

end steps

section life

variable (lib : Libs) (conf : Config) (r : Input) (inWorktime : Bool) (envs : List Env)

/-- An input never opens a socket while it has another one, closes no socket but its own, and has
none left when it is freed. -/
theorem sockets_closed :
    heldAfter (threadRun lib conf (spawned r inWorktime) envs).log =
        some (held (threadRun lib conf (spawned r inWorktime) envs).sock) ∧
      ((threadRun lib conf (spawned r inWorktime) envs).pc = .ended →
        held (threadRun lib conf (spawned r inWorktime) envs).sock = none) := by
  have alive := alive_run lib conf r inWorktime envs
  refine ⟨alive.records.socket, fun ended => if_pos (alive.stands.shut ?_)⟩
  rw [ended]
  trivial

/-- A turn to another connection. -/
def isTurn : Event → Bool
  | .failover | .stopped => true
  | _ => false

private theorem debt_of_no_attempt {log : List Event} (none : ∀ source, .attempt source ∉ log) :
    debt log = -(log.countP isTurn : ℤ) := by
  induction log with
  | nil => rfl
  | cons e log ih =>
      have later := ih fun source member => none source (List.mem_cons_of_mem _ member)
      have both : debt (e :: log) = weight e + debt log := by simp [debt]
      rw [both, later, List.countP_cons]
      cases e with
      | attempt source => exact absurd List.mem_cons_self (none source)
      | failover => simp [weight, isTurn]
      | stopped => simp [weight, isTurn]
      | opened fd => simp [weight, isTurn]
      | closed fd => simp [weight, isTurn]
      | begun => simp [weight, isTurn]
      | read n => simp [weight, isTurn]
      | freed => simp [weight, isTurn]

/-- Every attempt goes to the source that is as many places behind the first one as there were
failovers before, round and round. From one attempt to the next there is one failover, or one end of
the worktime. -/
theorem sources_take_turns (sourced : Mptsd.Sources.Sourced r.channel) :
    (∀ before source after,
        (threadRun lib conf (spawned r inWorktime) envs).log = before ++ .attempt source :: after →
        source = r.channel.sources
          ((r.channel.currSrc + before.count .failover) % r.channel.numSrc)) ∧
      ∀ before source between source' after,
        (threadRun lib conf (spawned r inWorktime) envs).log =
          before ++ .attempt source :: (between ++ .attempt source' :: after) →
        (∀ other, .attempt other ∉ between) → between.countP isTurn = 1 := by
  have records := (alive_run lib conf r inWorktime envs).records
  constructor
  · intro before source after found
    rw [(records.sources before source after found).1, sourced.failovers]
  · intro before source between source' after found none
    have first := (records.sources before source _ found).2
    have second := (records.sources (before ++ .attempt source :: between) source' after
      (by rw [found]; simp)).2
    have split : debt (before ++ .attempt source :: between) =
        debt before + (1 + debt between) := by
      simp [debt, weight]
    rw [split, first, debt_of_no_attempt none] at second
    omega

/-- A channel with a source whose packets come behind RTP headers. -/
def rtpChannel : Channel :=
  (channelNew 101 0 "tv" "Television" 0 "rtp://239.0.0.1:5000/" 1 1 1).get rfl

theorem channelNew_rtpChannel :
    channelNew 101 0 "tv" "Television" 0 "rtp://239.0.0.1:5000/" 1 1 1 = some rtpChannel := rfl

private theorem sourced_rtpChannel : Mptsd.Sources.Sourced rtpChannel :=
  (Mptsd.Sources.sourced_channelNew channelNew_rtpChannel).1

/-- A step in which the connection succeeds and a read returns nothing. -/
def emptyRead : Env where
  takes := 0
  dienow := false
  reconnect := false
  keepGoing := true
  inWorktime := true
  answers :=
    { src := some .udpSock
      resolveHost := 0
      socket := 4
      doConnect := 0
      lines := []
      multicast := true
      addMembership := 0
      bind := 0
      dienow := false }
  source := { byte := fun _ => 0, stop := some 0 }
  surroundings := { dienow := fun _ => false, time := fun _ => 0 }
  readen := 0
  packets := []

/-- The input of this channel. -/
def rtpInput : Input := inputNew sectionLibs "tv" rtpChannel false

/-- Its thread after `n` such steps. -/
def emptyReads (n : ℕ) : Worker :=
  threadRun sectionLibs (sampleConfig 0) (spawned rtpInput true) (List.replicate n emptyRead)

/-- The channel with a second source. -/
def twoSourced : Channel := chansrcAdd rtpChannel "rtp://239.0.0.2:5000/"

/-- Its thread, which connects three times. -/
def turning : Worker :=
  threadRun sectionLibs (sampleConfig 0)
    (spawned (inputNew sectionLibs "tv" twoSourced false) true) (List.replicate 18 emptyRead)

/-- The two sources of the channel are tried in turn. -/
theorem sources_take_turns_rtp :
    [.attempt (some "rtp://239.0.0.1:5000/"), .attempt (some "rtp://239.0.0.2:5000/"),
        .attempt (some "rtp://239.0.0.1:5000/")].Sublist turning.log ∧
      (∀ before source after, turning.log = before ++ .attempt source :: after →
        source = twoSourced.sources
          ((twoSourced.currSrc + before.count .failover) % twoSourced.numSrc)) ∧
      ∀ before source between source' after,
        turning.log = before ++ .attempt source :: (between ++ .attempt source' :: after) →
        (∀ other, .attempt other ∉ between) → between.countP isTurn = 1 :=
  ⟨by decide +kernel, sources_take_turns sectionLibs (sampleConfig 0)
    (inputNew sectionLibs "tv" twoSourced false) true (List.replicate 18 emptyRead)
    (sourced_rtpChannel.add _)⟩

private theorem two_le_zeroRun_iff (log : List Event) :
    2 ≤ zeroRun log ↔ [.read 0, .read 0] <:+ log := by
  rcases List.eq_nil_or_concat log with rfl | ⟨front, last, rfl⟩
  · simp [zeroRun]
  · rcases List.eq_nil_or_concat front with rfl | ⟨first, middle, rfl⟩
    · rw [List.concat_eq_append, zeroRun_concat]
      have short : ¬ ([.read 0, .read 0] : List Event) <:+ [] ++ [last] := by
        intro suffix
        have := suffix.length_le
        simp at this
      refine iff_of_false ?_ short
      split_ifs <;> simp [zeroRun]
    · simp only [List.concat_eq_append]
      rw [zeroRun_concat, zeroRun_concat, List.append_assoc, List.singleton_append]
      have suffix : ([.read 0, .read 0] : List Event) <:+ first ++ [middle, last] ↔
          middle = .read 0 ∧ last = .read 0 := by
        constructor
        · rintro ⟨start, whole⟩
          have same := (List.append_inj' whole rfl).2
          simp only [List.cons.injEq, and_true] at same
          exact ⟨same.1.symm, same.2.symm⟩
        · rintro ⟨rfl, rfl⟩
          exact List.suffix_append _ _
      rw [suffix]
      split_ifs with one two <;> simp_all

/-- An empty read ends a connection if and only if it is the third in a row. -/
theorem third_empty_read (e : Env)
    (reading : (threadRun lib conf (spawned r inWorktime) envs).pc = .reading)
    (quiet : (threadRun lib conf (spawned r inWorktime) envs).input.dienow = false ∧
      e.dienow = false ∧
      (threadRun lib conf (spawned r inWorktime) envs).reconnect = false ∧ e.reconnect = false)
    (works : e.inWorktime = true) (empty : e.readen = 0) :
    (threadRun lib conf (spawned r inWorktime) (envs ++ [e])).pc = .reconnect ↔
      [.read 0, .read 0] <:+ (threadRun lib conf (spawned r inWorktime) envs).log := by
  have alive : Alive r.channel ((threadRun lib conf (spawned r inWorktime) envs).meanwhile e) :=
    (alive_run lib conf r inWorktime envs).meanwhile
  rw [threadRun, List.foldl_concat]
  change (threadStep lib conf (threadRun lib conf (spawned r inWorktime) envs) e).pc = _ ↔ _
  generalize threadRun lib conf (spawned r inWorktime) envs = w at reading quiet alive ⊢
  obtain ⟨-, -, -, zeroReads, pc, log, dienow⟩ := meanwhile_frame w e
  obtain ⟨alone, told, calm, unforced⟩ := quiet
  have here : (w.meanwhile e).pc = .reading := pc.trans reading
  have awake : (w.meanwhile e).input.dienow = false := by
    rw [dienow, alone, told]
    rfl
  have kept : (w.meanwhile e).reconnect = false := by
    change (w.reconnect || e.reconnect) = false
    rw [calm, unforced]
    rfl
  obtain ⟨left, few⟩ := alive.stands.zeros here
  rw [log] at left few
  rw [← two_le_zeroRun_iff, threadStep, act, here]
  dsimp only [readStep]
  rw [works, awake, kept, empty]
  simp only [not_true_eq_false, Bool.false_eq_true, if_false, lt_self_iff_false, if_true]
  split_ifs with last
  · change (w.meanwhile e).zeroReads - 1 = 0 at last
    refine iff_of_true rfl ?_
    omega
  · change ¬ (w.meanwhile e).zeroReads - 1 = 0 at last
    refine iff_of_false ?_ (by omega)
    intro wrong
    change (w.meanwhile e).pc = .reconnect at wrong
    rw [here] at wrong
    cases wrong

/-- The third of them. -/
theorem third_empty_read_rtp :
    (threadRun sectionLibs (sampleConfig 0) (spawned rtpInput true)
        (List.replicate 5 emptyRead ++ [emptyRead])).pc = .reconnect ↔
      [.read 0, .read 0] <:+ (emptyReads 5).log :=
  third_empty_read sectionLibs (sampleConfig 0) rtpInput true (List.replicate 5 emptyRead) emptyRead
    (by decide +kernel) (by decide +kernel) rfl rfl

end life

section told

variable (lib : Libs) (conf : Config) {w : Worker} (e : Env)

/-- How many attempts an input that has been told to stop may still make. -/
def budget : Pc → ℕ
  | .waiting | .connecting => 1
  | _ => 0

def isAttempt : Event → Bool
  | .attempt _ => true
  | _ => false

/-- The input is outside its worktime, and waits. -/
def Asleep (w : Worker) : Prop := w.pc = .waiting ∧ w.working = false

/-- How many steps are left to an input that has been told to stop and is not asleep. -/
def stepsLeft : Pc → ℕ
  | .ended => 0
  | .quit => 1
  | .head => 2
  | .reconnect | .stop => 3
  | .reading => 4
  | .packet _ | .syncing => 5
  | .connecting => 6
  | .waiting => 7

/-- What an input that has been told to stop does in a step: it reads nothing, stores nothing, makes
no attempt it has not been about to make, and gets nearer to its end. -/
structure Stopping (w w' : Worker) : Prop where
  dienow : w'.input.dienow = true
  fed : w'.input.fed = w.input.fed
  events : ∃ extra, w'.log = w.log ++ extra ∧ (∀ n, .read n ∉ extra) ∧
    extra.countP isAttempt + budget w'.pc ≤ budget w.pc

theorem Stopping.trans {w' w'' : Worker} (first : Stopping w w') (second : Stopping w' w'') :
    Stopping w w'' := by
  obtain ⟨extra, log, quiet, within⟩ := first.events
  obtain ⟨extra', log', quiet', within'⟩ := second.events
  refine ⟨second.dienow, second.fed.trans first.fed, extra ++ extra', ?_, ?_, ?_⟩
  · rw [log', log, List.append_assoc]
  · intro n member
    rcases List.mem_append.mp member with here | there
    · exact quiet n here
    · exact quiet' n there
  · rw [List.countP_append]
    omega

private theorem stopping_of_log {w' : Worker} (extra : List Event) (dienow : w'.input.dienow = true)
    (fed : w'.input.fed = w.input.fed) (log : w'.log = w.log ++ extra)
    (quiet : ∀ e ∈ extra, isAttempt e = false ∧ ∀ n, e ≠ .read n)
    (within : budget w'.pc ≤ budget w.pc) : Stopping w w' := by
  refine ⟨dienow, fed, extra, log, fun n member => (quiet _ member).2 n rfl, ?_⟩
  have none : extra.countP isAttempt = 0 := by
    rw [List.countP_eq_zero]
    exact fun e member => by simp [(quiet e member).1]
  omega

private theorem syncs_of_dienow (dead : w.input.dienow = true) : syncs w e = false := by
  have told : (mpegSync e.source { e.surroundings with
      dienow := fun n => w.input.dienow || e.surroundings.dienow n }) = ⟨1, 0⟩ := by
    rw [mpegSync, Mptsd.Network.Sync.syncLoop]
    exact if_pos ⟨rfl, by simp [dead]⟩
  rw [syncs, told]
  rfl

private theorem shutdownFd_events (w : Worker) : ∃ extra, (w.shutdownFd lib).log = w.log ++ extra ∧
    ∀ e ∈ extra, isAttempt e = false ∧ ∀ n, e ≠ .read n := by
  refine ⟨_, rfl, ?_⟩
  intro e member
  obtain ⟨fd, -, rfl⟩ := List.mem_map.mp member
  exact ⟨rfl, fun n => Event.noConfusion⟩

theorem attemptSource_events (w : Worker) (e : Env) :
    (attemptSource w e).input = w.input ∧ ∃ extra,
      (attemptSource w e).log = w.log ++ .attempt w.input.channel.source :: extra ∧
        ∀ e ∈ extra, isAttempt e = false ∧ ∀ n, e ≠ .read n := by
  rw [attemptSource]
  have cleared : ∀ x : Worker, ∃ reconnect,
      (if e.answers.src.isSome then { x with reconnect := false } else x) =
        { x with reconnect } := by
    intro x
    split_ifs
    · exact ⟨false, rfl⟩
    · exact ⟨x.reconnect, rfl⟩
  obtain ⟨reconnect, same⟩ := cleared (w.note (.attempt w.input.channel.source))
  rw [same]
  split_ifs
  · refine ⟨rfl, if e.answers.socket < 0 then [] else [.opened e.answers.socket], ?_, ?_⟩
    · rw [Worker.setSock, Worker.note]
      simp
    · intro x member
      split_ifs at member
      · exact absurd member List.not_mem_nil
      · obtain rfl := List.mem_singleton.mp member
        exact ⟨rfl, fun n => Event.noConfusion⟩
  · exact ⟨rfl, [], rfl, fun _ member => absurd member List.not_mem_nil⟩

private theorem stopping_act (dead : w.input.dienow = true) : Stopping w (act lib conf w e) ∧
    (Asleep w ∧ e.keepGoing = true ∨ stepsLeft (act lib conf w e).pc ≤ stepsLeft w.pc - 1) := by
  have silent : ∀ w' : Worker, w'.input = w.input → w'.log = w.log → budget w'.pc ≤ budget w.pc →
      Stopping w w' := by
    intro w' input log within
    refine stopping_of_log [] ?_ ?_ ?_ (fun _ member => absurd member List.not_mem_nil) within
    · rw [input]
      exact dead
    · rw [input]
    · rw [log, List.append_nil]
  rw [act]
  cases here : w.pc with
  | head =>
      have quits : (if ¬ e.keepGoing = true then w.goto .quit
          else if w.input.dienow = true then w.goto .quit else w.goto .waiting) = w.goto .quit := by
        rw [if_pos dead, ite_self]
      dsimp only
      rw [quits]
      exact ⟨silent _ rfl rfl (Nat.zero_le _), .inr (Nat.le_refl 1)⟩
  | waiting =>
      dsimp only
      split_ifs with awake going
      · refine ⟨silent _ rfl rfl ?_, .inr (Nat.le_refl 6)⟩
        rw [here]
        exact Nat.le_refl 1
      · refine ⟨silent _ rfl rfl ?_, .inl ⟨⟨here, Bool.eq_false_iff.mpr awake⟩, going⟩⟩
        rw [here]
      · exact ⟨silent _ rfl rfl (Nat.zero_le _), .inr (by simp [stepsLeft, Worker.goto])⟩
  | connecting =>
      obtain ⟨input, extra, log, quiet⟩ := attemptSource_events w e
      have attempted : ∀ w' : Worker, w'.input.dienow = true → w'.input.fed = w.input.fed →
          (∃ more, w'.log = (attemptSource w e).log ++ more ∧
            ∀ x ∈ more, isAttempt x = false ∧ ∀ n, x ≠ .read n) →
          budget w'.pc = 0 → Stopping w w' := by
        rintro w' dienow fed ⟨more, later, plain⟩ none
        have calm : ∀ x ∈ extra ++ more, isAttempt x = false ∧ ∀ n, x ≠ .read n :=
          List.forall_mem_append.mpr ⟨quiet, plain⟩
        refine ⟨dienow, fed, .attempt w.input.channel.source :: (extra ++ more), ?_, ?_, ?_⟩
        · rw [later, log]
          simp
        · intro n member
          rcases List.mem_cons.mp member with wrong | there
          · cases wrong
          · exact (calm _ there).2 n rfl
        · have zero : (extra ++ more).countP isAttempt = 0 := by
            rw [List.countP_eq_zero]
            exact fun x member => by simp [(calm x member).1]
          rw [List.countP_cons, zero, none, here]
          simp [isAttempt, budget]
      have nothing : ∃ more, (attemptSource w e).log = (attemptSource w e).log ++ more ∧
          ∀ x ∈ more, isAttempt x = false ∧ ∀ n, x ≠ .read n :=
        ⟨[], (List.append_nil _).symm, fun _ member => absurd member List.not_mem_nil⟩
      dsimp only [connectStep]
      split_ifs
      · refine ⟨attempted _ ?_ ?_ nothing rfl, .inr (by simp [stepsLeft, Worker.goto])⟩
        · exact (congrArg Input.dienow input).trans dead
        · exact congrArg Input.fed input
      · refine ⟨attempted _ ?_ ?_ ⟨[.begun], rfl, ?_⟩ rfl, .inr (by
          simp [stepsLeft, Worker.goto, Thread.begin])⟩
        · exact (congrArg Input.dienow input).trans dead
        · change (attemptSource w e).input.fed = w.input.fed
          rw [input]
        · intro x member
          obtain rfl := List.mem_singleton.mp member
          exact ⟨rfl, fun n => Event.noConfusion⟩
      · refine ⟨attempted _ ?_ ?_ nothing rfl, .inr (by simp [stepsLeft, Worker.goto])⟩
        · exact (congrArg Input.dienow input).trans dead
        · exact congrArg Input.fed input
  | syncing =>
      dsimp only
      rw [syncs_of_dienow e dead, if_neg Bool.false_ne_true]
      exact ⟨silent _ rfl rfl (Nat.zero_le _), .inr (by simp [stepsLeft, Worker.goto])⟩
  | reading =>
      dsimp only [readStep]
      split_ifs with inside
      · exact ⟨silent _ rfl rfl (Nat.zero_le _), .inr (by simp [stepsLeft, Worker.goto])⟩
      · exact ⟨silent _ rfl rfl (Nat.zero_le _), .inr (by simp [stepsLeft, Worker.goto])⟩
  | packet packets =>
      cases packets with
      | nil => exact ⟨silent _ rfl rfl (Nat.zero_le _), .inr (Nat.le_refl 4)⟩
      | cons p rest =>
          have quits : packetStep lib conf w (p :: rest) = w.goto .quit := by
            rw [packetStep, inputPacket_of_dead dead]
          dsimp only
          rw [quits]
          exact ⟨silent _ rfl rfl (Nat.zero_le _), .inr (by simp [stepsLeft, Worker.goto])⟩
  | reconnect =>
      obtain ⟨extra, log, quiet⟩ := shutdownFd_events lib w
      refine ⟨stopping_of_log (extra ++ [.failover]) dead rfl ?_ ?_ (Nat.zero_le _),
        .inr (Nat.le_refl 2)⟩
      · change (w.shutdownFd lib).log ++ [.failover] = _
        rw [log, List.append_assoc]
      · exact List.forall_mem_append.mpr
          ⟨quiet, List.forall_mem_singleton.mpr ⟨rfl, fun _ => Event.noConfusion⟩⟩
  | stop =>
      obtain ⟨extra, log, quiet⟩ := shutdownFd_events lib w
      refine ⟨stopping_of_log (extra ++ [.stopped]) dead rfl ?_ ?_ (Nat.zero_le _),
        .inr (Nat.le_refl 2)⟩
      · change (w.shutdownFd lib).log ++ [.stopped] = _
        rw [log, List.append_assoc]
      · exact List.forall_mem_append.mpr
          ⟨quiet, List.forall_mem_singleton.mpr ⟨rfl, fun _ => Event.noConfusion⟩⟩
  | quit =>
      have closed : ∃ extra, (if w.sock > -1 then w.shutdownFd lib else w).log = w.log ++ extra ∧
          (if w.sock > -1 then w.shutdownFd lib else w).input = w.input ∧
          ∀ x ∈ extra, isAttempt x = false ∧ ∀ n, x ≠ .read n := by
        obtain ⟨extra, log, quiet⟩ := shutdownFd_events lib w
        split_ifs
        · exact ⟨extra, log, rfl, quiet⟩
        · exact ⟨[], (List.append_nil _).symm, rfl, fun _ member => absurd member List.not_mem_nil⟩
      obtain ⟨extra, log, input, quiet⟩ := closed
      refine ⟨stopping_of_log (extra ++ [.freed]) ?_ ?_ ?_ ?_ (Nat.zero_le _), .inr (Nat.le_refl 0)⟩
      · exact (congrArg Input.dienow input).trans dead
      · exact congrArg Input.fed input
      · change (if w.sock > -1 then w.shutdownFd lib else w).log ++ [.freed] = _
        rw [log, List.append_assoc]
      · exact List.forall_mem_append.mpr
          ⟨quiet, List.forall_mem_singleton.mpr ⟨rfl, fun _ => Event.noConfusion⟩⟩
  | ended =>
      refine ⟨silent _ rfl rfl le_rfl, .inr ?_⟩
      dsimp only
      rw [here]
      exact Nat.le_refl 0

private theorem stopping_meanwhile (dead : w.input.dienow = true) : Stopping w (w.meanwhile e) := by
  obtain ⟨_, same⟩ := meanwhile_input w e
  refine stopping_of_log [] ?_ ?_ (List.append_nil _).symm
    (fun _ member => absurd member List.not_mem_nil) le_rfl
  · rw [same]
    simp [dead]
  · rw [same]

private theorem stopping_step (dead : w.input.dienow = true) :
    Stopping w (threadStep lib conf w e) ∧
    (Asleep w ∧ e.keepGoing = true ∨
      stepsLeft (threadStep lib conf w e).pc ≤ stepsLeft w.pc - 1) := by
  have first := stopping_meanwhile e dead
  obtain ⟨second, nearer⟩ := stopping_act lib conf e first.dienow
  exact ⟨first.trans second, nearer⟩

/-- An input has to be woken while it is outside its worktime and the program goes on. -/
def SleepsOn (lib : Libs) (conf : Config) (w : Worker) (envs : List Env) : Prop :=
  ∃ before e after, envs = before ++ e :: after ∧ Asleep (threadRun lib conf w before) ∧
    e.keepGoing = true

private theorem stopping_run (envs : List Env) (dead : w.input.dienow = true) :
    Stopping w (threadRun lib conf w envs) ∧ (SleepsOn lib conf w envs ∨
      stepsLeft (threadRun lib conf w envs).pc ≤ stepsLeft w.pc - envs.length) := by
  induction envs generalizing w with
  | nil =>
      refine ⟨stopping_of_log [] dead rfl (List.append_nil _).symm
        (fun _ member => absurd member List.not_mem_nil) le_rfl, .inr le_rfl⟩
  | cons e envs ih =>
      obtain ⟨first, nearer⟩ := stopping_step lib conf e dead
      obtain ⟨later, end_⟩ := ih first.dienow
      refine ⟨first.trans later, ?_⟩
      rcases nearer with ⟨asleep, going⟩ | nearer
      · exact .inl ⟨[], e, envs, rfl, asleep, going⟩
      · rcases end_ with ⟨before, x, after, rfl, asleep, going⟩ | closer
        · exact .inl ⟨e :: before, x, after, rfl, asleep, going⟩
        · refine .inr (closer.trans ?_)
          rw [List.length_cons]
          omega

/-- Once an input is told to stop it reads nothing more, stores nothing more and makes one more
attempt to connect at most. Within seven steps its thread has ended, unless the input is outside its
worktime: there it is not heard before the program ends. -/
theorem told_to_stop (before after : List Env)
    (told : (threadRun lib conf w before).input.dienow = true) :
    (∃ extra, (threadRun lib conf w (before ++ after)).log =
        (threadRun lib conf w before).log ++ extra ∧ (∀ n, .read n ∉ extra) ∧
        extra.countP isAttempt ≤ 1) ∧
      (threadRun lib conf w (before ++ after)).input.fed = (threadRun lib conf w before).input.fed ∧
      (7 ≤ after.length → (threadRun lib conf w (before ++ after)).pc = .ended ∨
        SleepsOn lib conf (threadRun lib conf w before) after) := by
  obtain ⟨stopping, end_⟩ := stopping_run lib conf after told
  have joined : threadRun lib conf w (before ++ after) =
      threadRun lib conf (threadRun lib conf w before) after := List.foldl_append
  rw [joined]
  obtain ⟨extra, log, quiet, within⟩ := stopping.events
  have few : ∀ pc, budget pc ≤ 1 ∧ stepsLeft pc ≤ 7 := by
    intro pc
    cases pc <;> simp [budget, stepsLeft]
  refine ⟨⟨extra, log, quiet, ?_⟩, stopping.fed, fun long => ?_⟩
  · have := (few (threadRun lib conf w before).pc).1
    omega
  · refine end_.symm.imp ?_ id
    intro closer
    have := (few (threadRun lib conf w before).pc).2
    have none : stepsLeft (threadRun lib conf (threadRun lib conf w before) after).pc = 0 := by
      omega
    generalize (threadRun lib conf (threadRun lib conf w before) after).pc = pc at none ⊢
    cases pc <;> first | rfl | cases none

/-- The flag is set while the input reads. -/
def heard : List Env := List.replicate 4 emptyRead ++ [{ emptyRead with dienow := true }]

/-- Such an input. -/
theorem told_to_stop_rtp :
    (∃ extra, (threadRun sectionLibs (sampleConfig 0) (spawned rtpInput true)
          (heard ++ List.replicate 7 emptyRead)).log =
        (threadRun sectionLibs (sampleConfig 0) (spawned rtpInput true) heard).log ++ extra ∧
        (∀ n, .read n ∉ extra) ∧ extra.countP isAttempt ≤ 1) ∧
      (threadRun sectionLibs (sampleConfig 0) (spawned rtpInput true)
          (heard ++ List.replicate 7 emptyRead)).input.fed =
        (threadRun sectionLibs (sampleConfig 0) (spawned rtpInput true) heard).input.fed ∧
      (7 ≤ (List.replicate 7 emptyRead).length →
        (threadRun sectionLibs (sampleConfig 0) (spawned rtpInput true)
          (heard ++ List.replicate 7 emptyRead)).pc = .ended ∨
        SleepsOn sectionLibs (sampleConfig 0)
          (threadRun sectionLibs (sampleConfig 0) (spawned rtpInput true) heard)
          (List.replicate 7 emptyRead)) :=
  told_to_stop sectionLibs (sampleConfig 0) heard (List.replicate 7 emptyRead) (by decide +kernel)

end told

end Mptsd.Intake.Life
