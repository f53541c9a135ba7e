/- Unit: Mptsd/Shutdown/Model
   source: src/mptsd.c (signal_quit, kill_threads, main), src/output_psi.c (output_handle_psi),
   src/output_mix.c (output_handle_mix), src/output_write.c (output_handle_write), src/input.c
   (input_stream), src/data.c (proxy_close)
   digest: How the program stops: the main thread, the three output threads and the inputs, with
   every access to what they share as a step of its own. -/

import Mptsd.Lib.Tally

set_option autoImplicit false
set_option relaxedAutoImplicit false

namespace Mptsd.Shutdown.Model

open Mptsd.Lib.Tally (Access Phase)

/-- The threads that raise `dienow` of the output. -/
inductive Thread
  | psi | mix | write
  deriving DecidableEq

instance : Fintype Thread := ⟨{.psi, .mix, .write}, by
  intro t
  cases t <;> simp⟩

/-- A node of `conf->inputs`, with the flag of its input. -/
structure Input where
  id : ℕ
  dienow : Bool
  deriving DecidableEq

/-- Where the main thread stands: in its loop, in front of the store to `dienow`, in one of the two
reads of the loop of `kill_threads` or the sleep behind them, or behind it all. -/
inductive MainPc
  | sleeping | killing
  | readItems (loops : ℕ) | readDienow (loops : ℕ) | waiting (loops : ℕ)
  | returned | exited
  deriving DecidableEq

/-- The last loop of the mixer, over the inputs. It may find that the input it is at is gone. -/
inductive Walk
  | before | visit (id : Option ℕ) | over | astray
  deriving DecidableEq

/-- `left` tells which output threads have left their loops, `phase` where they stand in their
increments, and `accesses` in what order they made these. -/
structure State where
  keepGoing : Bool
  main : MainPc
  dienow : ℕ
  inputs : List Input
  left : Thread → Bool
  phase : Thread → Phase
  accesses : List (Access Thread)
  walk : Walk

/-- A step of the main thread. -/
def mainStep (s : State) : State :=
  match s.main with
  | .sleeping => if s.keepGoing then s else { s with main := .killing }
  | .killing => { s with dienow := 1, main := .readItems 0 }
  | .readItems loops =>
      { s with main := if s.inputs.length ≠ 0 then .waiting loops else .readDienow loops }
  | .readDienow loops => { s with main := if s.dienow < 4 then .waiting loops else .returned }
  | .waiting loops => { s with main := if loops > 60 then .exited else .readItems (loops + 1) }
  | .returned | .exited => s

/-- The input behind another one. -/
def nextInput (id : ℕ) (inputs : List Input) : Option ℕ :=
  ((inputs.dropWhile fun r => r.id ≠ id).tail.head?).map Input.id

/-- `r->dienow = 1`. -/
def markInput (id : ℕ) (inputs : List Input) : List Input :=
  inputs.map fun r => if r.id = id then { r with dienow := true } else r

/-- A step of the mixer behind its increment. -/
def walkStep (s : State) : State :=
  match s.walk with
  | .before => { s with walk := .visit (s.inputs.head?.map Input.id) }
  | .visit none => { s with walk := .over }
  | .visit (some id) =>
      if id ∈ s.inputs.map Input.id then
        { s with inputs := markInput id s.inputs, walk := .visit (nextInput id s.inputs) }
      else { s with walk := .astray }
  | .over | .astray => s

/-- A step of an output thread: its loop, and `o->dienow++`. -/
def outputStep (s : State) (t : Thread) : State :=
  if s.left t then
    match s.phase t with
    | .before =>
        { s with
          phase := Function.update s.phase t (.holds s.dienow)
          accesses := s.accesses ++ [.read t] }
    | .holds v =>
        { s with
          dienow := v + 1
          phase := Function.update s.phase t .done
          accesses := s.accesses ++ [.write t] }
    | .done => if t = .mix then walkStep s else s
  else if s.dienow ≠ 0 then { s with left := Function.update s.left t true }
  else s

/-- An input takes itself off the list when it is told to, or finds that the program ends. -/
def inputStep (s : State) (id : ℕ) : State :=
  { s with inputs := s.inputs.filter fun r => !(r.id == id && (r.dienow || !s.keepGoing)) }

inductive Turn
  | signal
  | main
  | output (t : Thread)
  | input (id : ℕ)
  deriving DecidableEq

def act (s : State) : Turn → State
  | .signal => { s with keepGoing := false }
  | .main => mainStep s
  | .output t => outputStep s t
  | .input id => inputStep s id

/-- Nothing happens any more when the process has exited. -/
def step (s : State) (turn : Turn) : State := if s.main = .exited then s else act s turn

def run (s : State) (turns : List Turn) : State := turns.foldl step s

/-- When all threads have been spawned. -/
def start (ids : List ℕ) : State where
  keepGoing := true
  main := .sleeping
  dienow := 0
  inputs := ids.map fun id => ⟨id, false⟩
  left _ := false
  phase _ := .before
  accesses := []
  walk := .before

end Mptsd.Shutdown.Model
