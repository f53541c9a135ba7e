/- Unit: Mptsd/Intake/Thread
   source: src/input.c (input_stream, input_check_state), src/network.c (connect_source, mpeg_sync),
   src/data.c (proxy_close, input_free)
   digest: The thread of an input over its whole life: it waits for its worktime, connects,
   synchronizes, reads, reconnects with the next source, and closes. -/

import Mptsd.Intake.Model
import Mptsd.Network.Response
import Mptsd.Network.Sync
import Mptsd.Urls

set_option autoImplicit false
set_option relaxedAutoImplicit false

namespace Mptsd.Intake.Thread

open Mptsd.Channels
open Mptsd.Conf (Config)
open Mptsd.Intake.Model
open Mptsd.Lib.Strings (readString)
open Mptsd.Network.Response (Answers connectSource)
open Mptsd.Network.Sync (Source Surroundings mpegSync)
open Mptsd.PsiTables (Libs)
open Mptsd.TsPacket (Packet)
open Mptsd.Urls (isRtp)

/-- `MAX_ZERO_READS`. -/
def maxZeroReads : ℤ := 3

/-- Where the thread stands: at the head of its outer loop, in the loop that waits for the worktime,
before the three calls of a connection, at a packet of what was read, and behind its labels. -/
inductive Pc
  | head | waiting | connecting | syncing | reading | packet (rest : List Packet)
  | reconnect | stop | quit | ended
  deriving DecidableEq

/-- What the thread does to its socket and its channel, and what its reads return. -/
inductive Event
  | attempt (source : Option String)
  | opened (fd : ℤ)
  | closed (fd : ℤ)
  | begun
  | read (readen : ℤ)
  | failover
  | stopped
  | freed
  deriving DecidableEq

/-- `INPUT` with its socket and its flags, and what the thread has done so far. -/
structure Worker where
  input : Input
  sock : ℤ
  working : Bool
  reconnect : Bool
  zeroReads : ℤ
  pc : Pc
  log : List Event

/-- What the thread meets in one step: what other threads have done to the input since the last one,
and what the calls of this step return. `packets` lie in the buffer behind a read. -/
structure Env where
  takes : ℕ
  dienow : Bool
  reconnect : Bool
  keepGoing : Bool
  inWorktime : Bool
  answers : Answers
  source : Source
  surroundings : Surroundings
  readen : ℤ
  packets : List Packet

namespace Worker

def goto (w : Worker) (pc : Pc) : Worker := { w with pc }

def note (w : Worker) (e : Event) : Worker := { w with log := w.log ++ [e] }

/-- `r->sock = socket(..)`. -/
def setSock (w : Worker) (fd : ℤ) : Worker :=
  { w with sock := fd, log := w.log ++ if fd < 0 then [] else [.opened fd] }

/-- `shutdown_fd(&(r->sock))`. -/
def shutdownFd (lib : Libs) (w : Worker) : Worker :=
  { w with
    sock := (lib.shutdownFd w.sock).2
    log := w.log ++ (lib.shutdownFd w.sock).1.map .closed }

theorem shutdownFd_of_open (lib : Libs) {w : Worker} (open_ : 0 ≤ w.sock) :
    w.shutdownFd lib = { w with sock := -1, log := w.log ++ [.closed w.sock] } := by
  rw [shutdownFd, lib.shutdownFd_open w.sock open_]
  rfl

theorem shutdownFd_of_shut (lib : Libs) {w : Worker} (shut : w.sock < 0) :
    ∃ sock < 0, w.shutdownFd lib = { w with sock } := by
  obtain ⟨closes, left⟩ := lib.shutdownFd_shut w.sock shut
  refine ⟨(lib.shutdownFd w.sock).2, left, ?_⟩
  rw [shutdownFd, closes, List.map_nil, List.append_nil]

/-- What other threads do: the mixer takes packets, and flags are set. -/
def meanwhile (w : Worker) (e : Env) : Worker :=
  let taken :=
    (fun r : Input => { r with buf := (Mptsd.PsiTables.cbufGet r.buf).2 })^[e.takes] w.input
  { w with
    input := { taken with dienow := taken.dienow || e.dienow }
    reconnect := w.reconnect || e.reconnect }

end Worker

/-- `connect_source` gets to its call of `socket`. -/
def reachesSocket (a : Answers) : Bool := a.src.isSome && a.resolveHost == 0

/-- `mpeg_sync`, which looks at `dienow`, too. -/
def syncs (w : Worker) (e : Env) : Bool :=
  (mpegSync e.source { e.surroundings with
    dienow := fun n => w.input.dienow || e.surroundings.dienow n }).ret == 0

/-- `is_rtp(r->channel->source)`. -/
def rtp (w : Worker) : Bool := isRtp (readString (w.input.channel.source.getD "").toList)

variable (lib : Libs)

/-- The stream is reset, and the reads begin. -/
def begin (w : Worker) : Worker :=
  ({ w with
    input := inputStreamReset lib w.input
    zeroReads := maxZeroReads }.note .begun).goto .reading

/-- What `connect_source` does to the input. -/
def attemptSource (w : Worker) (e : Env) : Worker :=
  let w := w.note (.attempt w.input.channel.source)
  let w := if e.answers.src.isSome then { w with reconnect := false } else w
  if reachesSocket e.answers then w.setSock e.answers.socket else w

/-- The call of `connect_source`. -/
def connectStep (w : Worker) (e : Env) : Worker :=
  let w := attemptSource w e
  if connectSource e.answers 1 ≠ 0 then w.goto .reconnect
  else if rtp w then begin lib w
  else w.goto .syncing

/-- The head of the inner loop, and its read. -/
def readStep (w : Worker) (e : Env) : Worker :=
  let w := { w with working := e.inWorktime }
  if ¬ w.working then w.goto .stop
  else if w.input.dienow then w.goto .quit
  else if w.reconnect then w.goto .reconnect
  else
    let w := w.note (.read e.readen)
    if e.readen < 0 then w.goto .reconnect
    else if e.readen = 0 then
      let w := { w with zeroReads := w.zeroReads - 1 }
      if w.zeroReads = 0 then w.goto .reconnect else w
    else w.goto (.packet e.packets)

/-- A packet of what was read, or the end of it. -/
def packetStep (conf : Config) (w : Worker) : List Packet → Worker
  | [] => { w with zeroReads := maxZeroReads }.goto .reading
  | tsPacket :: rest =>
      let after := inputPacket lib conf w.input tsPacket
      let w := { w with input := after.2 }
      match after.1 with
      | .next => w.goto (.packet rest)
      | .reconnect => w.goto .reconnect
      | .quit => w.goto .quit

def act (conf : Config) (w : Worker) (e : Env) : Worker :=
  match w.pc with
  | .head =>
      if ¬ e.keepGoing then w.goto .quit
      else if w.input.dienow then w.goto .quit
      else w.goto .waiting
  | .waiting =>
      if w.working then { w with working := e.inWorktime }.goto .connecting
      else
        let w := { w with working := e.inWorktime }
        if ¬ e.keepGoing then w.goto .quit else w
  | .connecting => connectStep lib w e
  | .syncing => if syncs w e then begin lib w else w.goto .reconnect
  | .reading => readStep w e
  | .packet packets => packetStep lib conf w packets
  | .reconnect =>
      let w := w.shutdownFd lib
      ({ w with input := { w.input with channel := chansrcNext w.input.channel } }.note
        .failover).goto .head
  | .stop => ((w.shutdownFd lib).note .stopped).goto .head
  | .quit => ((if w.sock > -1 then w.shutdownFd lib else w).note .freed).goto .ended
  | .ended => w

def threadStep (conf : Config) (w : Worker) (e : Env) : Worker := act lib conf (w.meanwhile e) e

def threadRun (conf : Config) (w : Worker) (envs : List Env) : Worker :=
  envs.foldl (threadStep lib conf) w

/-- A new input, whose thread has looked at the clock. -/
def spawned (r : Input) (inWorktime : Bool) : Worker where
  input := r
  sock := -1
  working := inWorktime
  reconnect := false
  zeroReads := 0
  pc := .head
  log := []

end Mptsd.Intake.Thread
