/- Unit: Mptsd/Reload/Teardown
   source: src/config.c (config_free), src/data.c (input_free, channel_free), src/mptsd.c (main)
   digest: What the program frees at its end, over its whole life. -/

import Mptsd.Reload.Ownership

set_option autoImplicit false
set_option relaxedAutoImplicit false

namespace Mptsd.Reload.Teardown

open Mptsd.Reload.Model
open Mptsd.Reload.Ownership

/-- `input_free`, as far as it frees channels. -/
def inputFree (freed : List ℕ) (r : Input) : List ℕ :=
  if r.freechannel then freed ++ [r.channel] else freed

/-- `config_free`: the list of inputs, then the list of channels. -/
def configFree (s : State) : State :=
  { s with
    inputs := []
    channels := []
    freed := s.inputs.foldl inputFree s.freed ++ s.channels }

/-- What `main` does: the channels are loaded, the threads are spawned, and inputs end. -/
def life (loaded : Option (List ChannelObject)) (cookie : ℤ) (exits : List ℕ) : List ReloadStep :=
  .load loaded cookie :: .spawn :: exits.map .exit

private theorem foldl_inputFree (inputs : List Input) (freed : List ℕ) :
    inputs.foldl inputFree freed = freed ++ privates inputs := by
  induction inputs generalizing freed with
  | nil => exact (List.append_nil freed).symm
  | cons r rest ih =>
      rw [List.foldl_cons, ih, inputFree, privates, privates, List.filter_cons]
      cases r.freechannel with
      | false => rfl
      | true => simp

private theorem Owned.freed_configFree {s : State} (h : Owned s) :
    (configFree s).freed.Perm (List.range (configFree s).heap.next) := by
  have all := h.balanced.perm
  rw [configFree, foldl_inputFree]
  dsimp only
  refine List.Perm.trans ?_ all
  rw [owners]
  exact List.perm_iff_count.mpr fun a => by simp only [List.count_append]; omega

private theorem clear_life (memory : ℕ → ChannelObject) (loaded : Option (List ChannelObject))
    (cookie : ℤ)
    (exits : List ℕ) (front : List ReloadStep) (step : ReloadStep)
    (part : front ++ [step] <+: life loaded cookie exits) :
    Clear (reloadAfter memory front) step := by
  cases front with
  | nil =>
      obtain rfl : step = .load loaded cookie := by
        rw [List.nil_append, life, List.prefix_cons_iff] at part
        simpa using part
      cases loaded with
      | none => exact trivial
      | some loaded =>
          rintro r ⟨⟩
  | cons first rest =>
      have later : step ∈ ReloadStep.spawn :: exits.map .exit := by
        rw [List.cons_append, life, List.cons_prefix_cons] at part
        exact part.2.subset (List.mem_append_right _ (List.mem_singleton_self step))
      cases step with
      | load loaded' cookie' => simp at later
      | spawn => exact trivial
      | exit i => exact trivial

/-- Whatever the channels file holds and in whatever order inputs end: as long as the program runs,
inputs refer to live channel objects that have one owner, and when `config_free` has returned every
channel object it ever made has been freed exactly once. -/
theorem life_frees_once (memory : ℕ → ChannelObject) (loaded : Option (List ChannelObject))
    (cookie : ℤ) (exits : List ℕ) :
    (∀ front, front <+: life loaded cookie exits → Accounted (reloadAfter memory front)) ∧
      (configFree (reloadAfter memory (life loaded cookie exits))).freed.Perm
        (List.range (reloadAfter memory (life loaded cookie exits)).heap.next) := by
  have clear := clear_life memory loaded cookie exits
  refine ⟨fun front part => ?_, Owned.freed_configFree (owned_after memory _ clear)⟩
  exact (owned_after memory front fun front' step part' =>
    clear front' step (part'.trans part)).accounted

end Mptsd.Reload.Teardown
