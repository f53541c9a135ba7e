/- Unit: Mptsd/Mixer/Cursor
   source: src/output_mix.c (output_handle_mix, the cursor), src/data.c (proxy_close), src/mptsd.c
   (spawn_input_threads)
   digest: The node of the input served last, which the mixer keeps from one buffer to the next
   while inputs come and go. -/

import Mptsd.Lib.Cursor
import Mptsd.Mixer.Fill

set_option autoImplicit false
set_option relaxedAutoImplicit false

namespace Mptsd.Mixer.Cursor

open Mptsd.TsPacket (TsFuncs headerFuncs)
open Mptsd.Channels (sampleChannel)
open Mptsd.Conf (Config sampleConfig)
open Mptsd.Sections (sectionLibs)
open Mptsd.Lib.Cursor
open Mptsd.Intake.Model (Input inputNew)
open Mptsd.Mixer.Model
open Mptsd.Mixer.Fill

/-- The address of the empty root of `conf->inputs`. -/
def root : ℕ := 0

/-- `conf->inputs` by the addresses of its nodes, behind the root, and the mixer with its `inpt`.
The inputs of the nodes are those of `mix`, in the same order. -/
structure Shared where
  nodes : List ℕ
  inpt : ℕ
  mix : Mix

/-- `inpt` refers to the root or to a node that is on the list. -/
def Shared.Valid (w : Shared) : Prop := w.inpt = root ∨ w.inpt ∈ w.nodes

/-- `inpt = conf->inputs->tail`. -/
def Shared.start (nodes : List ℕ) (mix : Mix) : Shared where
  nodes
  inpt := nodes.getLast?.getD root
  mix

/-- The node at a position of the ring. -/
def nodeAt (nodes : List ℕ) (k : ℕ) : ℕ := (root :: nodes).getD k root

variable (ts : TsFuncs) (conf : Config)

/-- What happens under the lock of the list: a whole fill from the node that `inpt` refers to,
`list_add`, or `list_del_entry`, which frees the node, so that its address can be handed out again;
and what arrives in the buffers between two fills. -/
inductive CursorStep : Shared → Change ℕ → Shared → Prop
  | fill {w : Shared} {k n : ℕ} {t : Mix} : (root :: w.nodes)[k]? = some w.inpt →
      FillRun ts conf { w.mix with node := k } n t → t.pc = .full →
      CursorStep w (.move (nodeAt w.nodes t.node))
        { w with inpt := nodeAt w.nodes t.node, mix := { t with pc := .waiting } }
  | listAdd {w : Shared} {a : ℕ} {r : Input} : a ≠ root → a ∉ w.nodes →
      CursorStep w (.add a)
        { w with
          nodes := w.nodes ++ [a]
          mix := { w.mix with inputs := w.mix.inputs ++ [r] } }
  | listDelEntry {w : Shared} {a : ℕ} : a ∈ w.nodes →
      CursorStep w (.remove a)
        { w with
          nodes := w.nodes.erase a
          mix := { w.mix with inputs := w.mix.inputs.eraseIdx (w.nodes.idxOf a) } }
  | arrive {w : Shared} {s' : Mix} : Arrives ts w.mix s' → CursorStep w .keep { w with mix := s' }

/-- A run, with the state after each step. -/
inductive CursorRun : Shared → List (Change ℕ × Shared) → Prop
  | nil {w : Shared} : CursorRun w []
  | cons {w w' : Shared} {c : Change ℕ} {rest : List (Change ℕ × Shared)} :
      CursorStep ts conf w c w' → CursorRun w' rest → CursorRun w ((c, w') :: rest)

/-- The list and `inpt` alone. -/
def places (w : Shared) : Places ℕ := ⟨root, w.nodes, w.inpt⟩

/-- No input leaves the list while `inpt` refers to its node. -/
def Spared (w : Shared) (steps : List (Change ℕ × Shared)) : Prop :=
  (places w).Spared (steps.map Prod.fst)

/-- Every node has its input, and another address than the others and the root. -/
structure Listed (w : Shared) : Prop where
  distinct : w.nodes.Nodup
  root : root ∉ w.nodes
  inputs : w.mix.inputs.length = w.nodes.length

section fill

variable {s t : Mix} {n : ℕ}

private theorem stepNode_le (items node : ℕ) : stepNode items node ≤ items := by
  have below : ∀ k, nextNode items k ≤ items := by
    intro k
    exact Nat.le_of_lt_succ (Nat.mod_lt (k + 1) (Nat.succ_pos items))
  rw [stepNode]
  split <;> exact below _

private theorem mixTurn_node (s : Mix) :
    (mixTurn ts conf s).inputs.length = s.inputs.length ∧
      ((mixTurn ts conf s).node = s.node ∨
        (mixTurn ts conf s).node = stepNode s.inputs.length s.node) := by
  have step := mixTurn_step ts conf s
  generalize mixTurn ts conf s = after at step ⊢
  cases step with
  | start =>
      rw [startFill]
      dsimp only
      split <;> simp
  | @visit left readCount =>
      refine ⟨scanInput_length ts conf s left readCount, Or.inr ?_⟩
      obtain ⟨inputs, pc, removed, same, -⟩ := scanInput_frame ts conf s left readCount
      rw [same]
  | skip => exact ⟨List.length_map _, Or.inl rfl⟩
  | place => exact ⟨List.length_map _, Or.inl rfl⟩
  | _ => exact ⟨rfl, Or.inl rfl⟩

variable {ts conf}

private theorem node_fillRun (node : s.node ≤ s.inputs.length) (run : FillRun ts conf s n t) :
    t.inputs.length = s.inputs.length ∧ t.node ≤ s.inputs.length := by
  induction run with
  | start =>
      rw [startFill]
      dsimp only
      split <;> simpa using node
  | @turn n t _ _ ih =>
      obtain ⟨length, below⟩ := ih
      obtain ⟨same, stays | visits⟩ := mixTurn_node ts conf t
      · exact ⟨same.trans length, stays ▸ below⟩
      · have := stepNode_le t.inputs.length t.node
        exact ⟨same.trans length, by omega⟩
  | @arrive n t t' _ arrives ih =>
      have same := arrives.inputs.length_eq
      rw [arrives.rest]
      exact ⟨same.symm.trans ih.1, ih.2⟩

end fill

variable {ts conf} {w w' : Shared} {c : Change ℕ}

private theorem CursorStep.places (step : CursorStep ts conf w c w') (listed : Listed w) :
    (places w).Allowed c ∧ Cursor.places w' = (Cursor.places w).apply c ∧ Listed w' := by
  cases step with
  | @fill k n t stands run done =>
      obtain ⟨inside, -⟩ := List.getElem?_eq_some_iff.mp stands
      rw [List.length_cons] at inside
      have bound : k ≤ w.mix.inputs.length := by
        rw [listed.inputs]
        omega
      obtain ⟨length, below⟩ := node_fillRun (s := { w.mix with node := k }) bound run
      have place : nodeAt w.nodes t.node ∈ root :: w.nodes := by
        have within : t.node < (root :: w.nodes).length := by
          rw [List.length_cons, ← listed.inputs]
          exact Nat.lt_succ_of_le below
        rw [nodeAt]
        rw [List.getD_eq_getElem?_getD, List.getElem?_eq_getElem within, Option.getD_some]
        exact List.getElem_mem within
      refine ⟨⟨?_, List.mem_cons.mp place⟩, rfl, listed.distinct, listed.root,
        length.trans listed.inputs⟩
      exact List.mem_cons.mp (List.mem_of_getElem? stands)
  | @listAdd a r other fresh =>
      have sound := Places.Sound.apply (p := Cursor.places w) (c := .add a)
        ⟨listed.distinct, listed.root⟩ ⟨other, fresh⟩
      exact ⟨⟨other, fresh⟩, rfl, sound.distinct, sound.root, by simp [listed.inputs]⟩
  | @listDelEntry a member =>
      have sound := Places.Sound.apply (p := Cursor.places w) (c := .remove a)
        ⟨listed.distinct, listed.root⟩ member
      refine ⟨member, rfl, sound.distinct, sound.root, ?_⟩
      have place := List.idxOf_lt_length_of_mem member
      dsimp only
      rw [List.length_eraseIdx_of_lt (by rw [listed.inputs]; exact place),
        List.length_erase_of_mem member, listed.inputs]
  | arrive arrives =>
      refine ⟨trivial, rfl, listed.distinct, listed.root, ?_⟩
      rw [← arrives.inputs.length_eq]
      exact listed.inputs

private theorem CursorRun.places {steps : List (Change ℕ × Shared)}
    (run : CursorRun ts conf w steps)
    (listed : Listed w) :
    (Cursor.places w).Legal (steps.map Prod.fst) ∧
      (Cursor.places w).after (steps.map Prod.fst) = steps.map fun x => Cursor.places x.2 := by
  induction run with
  | nil => exact ⟨trivial, rfl⟩
  | cons step _ ih =>
      obtain ⟨allowed, same, listed'⟩ := step.places listed
      obtain ⟨legal, after⟩ := ih listed'
      rw [List.map_cons, List.map_cons, Places.Legal, Places.after, ← same]
      exact ⟨⟨allowed, legal⟩, by rw [after]⟩

private theorem start_valid (nodes : List ℕ) (mix : Mix) : (Shared.start nodes mix).Valid := by
  rw [Shared.start, Shared.Valid]
  cases last : nodes.getLast? with
  | none => exact Or.inl rfl
  | some a => exact Or.inr (List.mem_of_getLast? last)

/-- In every run of fills, additions and removals, from the start of the mixer on: `inpt` refers
to the root or to a node of the list in every state, in which the next fill may start, if and only
if no input leaves the list while `inpt` refers to its node. -/
theorem cursor_valid_iff (ts : TsFuncs) (conf : Config) (nodes : List ℕ) (mix : Mix)
    (distinct : nodes.Nodup) (other : root ∉ nodes) (inputs : mix.inputs.length = nodes.length)
    (steps : List (Change ℕ × Shared)) (run : CursorRun ts conf (Shared.start nodes mix) steps) :
    (∀ x ∈ steps, x.2.Valid) ↔ Spared (Shared.start nodes mix) steps := by
  have listed : Listed (Shared.start nodes mix) := ⟨distinct, other, inputs⟩
  obtain ⟨legal, after⟩ := run.places listed
  have held : (places (Shared.start nodes mix)).Held := start_valid nodes mix
  rw [Spared]
  rw [← Places.held_after_iff ⟨distinct, other⟩ held legal, after, List.forall_mem_map]
  exact Iff.rfl

/-- The sample mixer's buffer after its fill of six steps. -/
def sampleFilled : Mix := (mixTurn headerFuncs (sampleConfig 3))^[6] (startFill sampleMix)

/-- The sample mixer with its one input at address 7, after the fill. -/
def sampleServed : Shared where
  nodes := [7]
  inpt := nodeAt [7] sampleFilled.node
  mix := { sampleFilled with pc := .waiting }

private theorem nodeAt_sampleFilled : nodeAt [7] sampleFilled.node = 7 := by
  decide +kernel

private theorem sampleServed_step :
    CursorStep headerFuncs (sampleConfig 3) (Shared.start [7] sampleMix) (.move 7)
      sampleServed := by
  have step : CursorStep headerFuncs (sampleConfig 3) (Shared.start [7] sampleMix)
      (.move (nodeAt [7] sampleFilled.node)) sampleServed :=
    .fill (k := 1) rfl (fillRun_iterate 6 (by decide +kernel)) (by decide +kernel)
  rwa [nodeAt_sampleFilled] at step

/-- The input is served, another one is added, which leaves again. -/
theorem cursor_valid_iff_other_input_leaves :
    ∃ steps : List (Change ℕ × Shared),
      steps.map Prod.fst = [.move 7, .add 8, .remove 8] ∧
        CursorRun headerFuncs (sampleConfig 3) (Shared.start [7] sampleMix) steps ∧
        ((∀ x ∈ steps, x.2.Valid) ↔ Spared (Shared.start [7] sampleMix) steps) := by
  have run : CursorRun headerFuncs (sampleConfig 3) (Shared.start [7] sampleMix) _ :=
    .cons sampleServed_step (.cons (.listAdd (a := 8)
        (r := inputNew sectionLibs "b" (sampleChannel 2 1) false) (by decide) (by decide))
      (.cons (.listDelEntry (a := 8) (show 8 ∈ [7, 8] by decide)) .nil))
  exact ⟨_, rfl, run, cursor_valid_iff headerFuncs (sampleConfig 3) [7] sampleMix (by decide)
    (by decide) rfl _ run⟩

/-- The input served last leaves: the next fill would start from the node that was freed. -/
theorem served_input_leaves :
    ∃ steps : List (Change ℕ × Shared),
      steps.map Prod.fst = [.move 7, .remove 7] ∧
        CursorRun headerFuncs (sampleConfig 3) (Shared.start [7] sampleMix) steps ∧
        ¬ ∀ x ∈ steps, x.2.Valid := by
  have inpt : sampleServed.inpt = 7 := nodeAt_sampleFilled
  have run : CursorRun headerFuncs (sampleConfig 3) (Shared.start [7] sampleMix) _ :=
    .cons sampleServed_step (.cons (.listDelEntry (a := 7) (by decide)) .nil)
  refine ⟨_, rfl, run, fun valid => ?_⟩
  have last := valid (.remove 7, _) (List.mem_cons_of_mem _ (List.mem_cons_self))
  rcases last with atRoot | listed
  · exact absurd (inpt.symm.trans atRoot) (by decide)
  · exact absurd listed List.not_mem_nil

end Mptsd.Mixer.Cursor
