/- Unit: Mptsd/Intake/Window
   source: src/input.c (input_stream), src/pidref.c, src/data.c (channel_new)
   digest: Which PIDs the packets in the buffer of an input carry, over whole runs: the window of
   the channel and the EIT, as long as every packet that is forwarded has a PID to be given. -/

import Mptsd.Intake.Announce
import Mptsd.Intake.Effects

set_option autoImplicit false
set_option relaxedAutoImplicit false

namespace Mptsd.Intake.Window

open Mptsd.TsPacket (Packet)
open Mptsd.Channels (Channel Made chansrcNext_frame window mem_window window_disjoint sampleChannel
  sampleChannel_made)
open Mptsd.Conf (Config sampleConfig)
open Mptsd.Lib.Counter (cyclicRun)
open Mptsd.PidTable
open Mptsd.PsiTables
open Mptsd.Intake.Model
open Mptsd.Intake.Announce (uint16_basePid)
open Mptsd.Intake.StreamInvariant
open Mptsd.Intake.Effects
open Mptsd.Sections (sectionLibs patPackets pmtPackets pcrPacket payloadPacket)

/-- A packet that will be forwarded and stored has a PID of the tables, or one of the window. -/
def Tame (lib : Libs) (r : Input) : InputStep → Prop
  | .packet p => forwards lib r p → takes lib r [p] →
      pidrefGetNewPid r.stream.pidref (lib.getPid p) ≠ 0 ∨
        lib.getPid p ∈ window r.channel.index
  | _ => True

/-- Every packet stored so far has a PID of the window, or is EIT. -/
def Inside (lib : Libs) (i : ℕ) (r : Input) : Prop :=
  ∀ q ∈ r.buf.filled, lib.getPid q ∈ window i ∨ lib.getPid q = 0x12

-- by the list: there are finitely many packets, but far too many to go through
instance (lib : Libs) (i : ℕ) (r : Input) : Decidable (Inside lib i r) := List.decidableBAll _ _

variable {lib : Libs} {conf : Config} {c : Channel} {r r' : Input} {i : ℕ}

private theorem inside_inputBufferAdd (data : List Packet)
    (buf : bufView r' = bufView (inputBufferAdd lib r data)) :
    Inside lib i r' ↔ Inside lib i r ∧ (takes lib r data →
      ∀ q ∈ data, lib.getPid q ∈ window i ∨ lib.getPid q = 0x12) := by
  unfold Inside
  rw [filled_congr buf, filled_inputBufferAdd]
  split
  · rename_i taken
    simp only [List.mem_append, or_imp, forall_and, taken, true_implies]
  · rename_i refused
    simp [refused]

private theorem inside_congr (buf : bufView r' = bufView r) : Inside lib i r' ↔ Inside lib i r := by
  unfold Inside
  rw [filled_congr buf]

private theorem run_in_window {n : ℕ} (lt : i < 256) (fits : n ≤ 32) {pid : ℕ}
    (member : pid ∈ cyclicRun (2 ^ 16) (32 * i) n) : pid ∈ window i ∧ pid < 0x2000 := by
  obtain ⟨j, below, rfl⟩ := List.mem_map.mp member
  rw [List.mem_range] at below
  rw [mem_window]
  omega

private theorem changed_inside (made : Made c) (sound : Sound lib c r)
    (fits : (orgsDone r.stream).length ≤ 32) (p : Packet)
    (known : pidrefGetNewPid r.stream.pidref (lib.getPid p) ≠ 0 ∨ lib.getPid p ∈ window c.index) :
    lib.getPid (pidrefChangePacketPid lib.toTsFuncs p (lib.getPid p) r.stream.pidref).2 ∈
      window c.index := by
  have lt := made.index_lt
  have base := uint16_basePid made
  unfold pidrefChangePacketPid
  dsimp only
  split
  · rename_i found
    rw [sound.tracked.pidref, base] at found ⊢
    obtain ⟨inside, small⟩ := run_in_window lt fits (lookup_assigned (by omega) found)
    rw [lib.getPid_setPid, Nat.mod_eq_of_lt small]
    exact inside
  · rename_i absent
    exact known.resolve_left absent

private theorem inside_inputStep (made : Made c) (sound : Sound lib c r)
    (index : r.channel.index = c.index) (fits : (orgsDone r.stream).length ≤ 32)
    (step : InputStep) :
    Inside lib c.index (inputStep lib conf r step) ↔
      Inside lib c.index r ∧ Tame lib r step := by
  have lt := made.index_lt
  have base := uint16_basePid made
  cases step with
  | reconnect => exact (and_iff_left trivial).symm
  | stop => exact (and_iff_left trivial).symm
  | take =>
      refine Iff.trans ?_ (and_iff_left trivial).symm
      unfold Inside inputStep
      simp only [filled_cbufGet]
  | packet p =>
      rw [Tame]
      rw [index]
      have effect : Effect lib conf _ r p (inputPacket lib conf r p).2 :=
        inputPacket_effect sound.tracked sound.known (by omega)
      constructor
      · intro after
        have before : Inside lib c.index r := by
          cases effect with
          | quiet buf => exact (inside_congr buf).mp after
          | pmt pid data _ _ buf => exact ((inside_inputBufferAdd data buf).mp after).1
          | eit t _ buf => exact ((inside_inputBufferAdd _ buf).mp after).1
          | forward _ buf => exact ((inside_inputBufferAdd _ buf).mp after).1
        refine ⟨before, fun on taken => ?_⟩
        by_contra stray
        push Not at stray
        obtain ⟨unmapped, outside⟩ := stray
        have left_alone : (pidrefChangePacketPid lib.toTsFuncs p (lib.getPid p)
            r.stream.pidref).2 = p := by
          simp [pidrefChangePacketPid, unmapped]
        have stored := ((inside_inputBufferAdd _ (inputPacket_forwards on)).mp after).2 taken
        rw [left_alone] at stored
        exact (stored p List.mem_cons_self).elim outside on.2.2.2.1
      · rintro ⟨before, tame⟩
        cases effect with
        | quiet buf => exact (inside_congr buf).mpr before
        | pmt pid data assigned pids buf =>
            refine (inside_inputBufferAdd data buf).mpr ⟨before, fun _ q member => Or.inl ?_⟩
            rw [base] at assigned
            obtain ⟨inside, small⟩ := run_in_window lt fits assigned
            rw [pids small q member]
            exact inside
        | eit t _ buf =>
            refine (inside_inputBufferAdd _ buf).mpr ⟨before, fun _ q member => Or.inr ?_⟩
            exact pid_setConts lib.toTsFuncs (lib.eit_packets_pid _) q member
        | forward on buf =>
            refine (inside_inputBufferAdd _ buf).mpr ⟨before, fun taken q member => Or.inl ?_⟩
            obtain rfl := List.mem_singleton.mp member
            exact changed_inside made sound fits p (tame on taken)

theorem index_inputStep (sound : Sound lib c r) (step : InputStep) :
    (inputStep lib conf r step).channel.index = r.channel.index := by
  cases step with
  | packet p => exact congrArg Channel.index (channel_inputPacket sound.tracked.eit)
  | reconnect => exact (chansrcNext_frame r.channel).1
  | take => rfl
  | stop => rfl

section Run

variable (lib : Libs) (conf : Config) (name : String) (c : Channel) (ifd : Bool)

/-- An input of channel `c` after these steps. -/
def inputAfter (steps : List InputStep) : Input :=
  inputRun lib conf (inputNew lib name c ifd) steps

theorem inputAfter_concat (steps : List InputStep) (step : InputStep) :
    inputAfter lib conf name c ifd (steps ++ [step]) =
      inputStep lib conf (inputAfter lib conf name c ifd steps) step := by
  simp [inputAfter, inputRun]

theorem sound_after (steps : List InputStep) :
    Sound lib c (inputAfter lib conf name c ifd steps) ∧
      (inputAfter lib conf name c ifd steps).channel.index = c.index := by
  induction steps using List.reverseRecOn with
  | nil => exact ⟨sound_inputNew name c ifd, rfl⟩
  | append_singleton steps step ih =>
      rw [inputAfter_concat]
      exact ⟨ih.1.inputStep step, (index_inputStep ih.1 step).trans ih.2⟩

/-- The tables of every connection fit in the window of the channel. -/
def Fits (steps : List InputStep) : Prop :=
  ∀ front, front <+: steps →
    (orgsDone (inputAfter lib conf name c ifd front).stream).length ≤ 32

/-- Every step of the run is tame. -/
def AllTame (steps : List InputStep) : Prop :=
  ∀ front step, front ++ [step] <+: steps → Tame lib (inputAfter lib conf name c ifd front) step

private theorem inside_after_iff (made : Made c) (steps : List InputStep)
    (fits : Fits lib conf name c ifd steps) :
    Inside lib c.index (inputAfter lib conf name c ifd steps) ↔
      AllTame lib conf name c ifd steps := by
  induction steps using List.reverseRecOn with
  | nil =>
      constructor
      · intro _ front step part
        simp at part
      · intro _ q stored
        cases stored
  | append_singleton steps step ih =>
      have shorter : ∀ {l : List InputStep}, l <+: steps → l <+: steps ++ [step] :=
        fun part => part.trans (List.prefix_append _ _)
      obtain ⟨sound, index⟩ := sound_after lib conf name c ifd steps
      rw [inputAfter_concat,
        inside_inputStep made sound index (fits steps (shorter List.prefix_rfl)),
        ih (fun front part => fits front (shorter part))]
      constructor
      · rintro ⟨before, last⟩ front s part
        rcases List.prefix_concat_iff.mp part with same | part
        · obtain ⟨rfl, rest⟩ := List.append_inj' same rfl
          obtain rfl : s = step := by simpa using rest
          exact last
        · exact before front s part
      · intro all
        exact ⟨fun front s part => all front s (shorter part), all steps step List.prefix_rfl⟩

end Run

/-- Over any run of an input whose tables fit in its window, the stored packets stay in the window,
the EIT apart, exactly when every forwarded packet has a PID to be given or one of the window; and
then inputs of different channels share no PID but that of the EIT. -/
theorem stored_in_window_iff (lib : Libs) (conf : Config) (name : String) (c : Channel) (ifd : Bool)
    (made : Made c) (steps : List InputStep) (fits : Fits lib conf name c ifd steps) :
    (Inside lib c.index (inputAfter lib conf name c ifd steps) ↔
      AllTame lib conf name c ifd steps) ∧
    ∀ (name₂ : String) (c₂ : Channel) (ifd₂ : Bool) (steps₂ : List InputStep), Made c₂ →
      Fits lib conf name₂ c₂ ifd₂ steps₂ → c.index ≠ c₂.index →
      AllTame lib conf name c ifd steps → AllTame lib conf name₂ c₂ ifd₂ steps₂ →
      ∀ q ∈ (inputAfter lib conf name c ifd steps).buf.filled,
        ∀ q₂ ∈ (inputAfter lib conf name₂ c₂ ifd₂ steps₂).buf.filled,
          lib.getPid q = lib.getPid q₂ → lib.getPid q = 0x12 := by
  have inside := inside_after_iff lib conf name c ifd made steps fits
  refine ⟨inside, ?_⟩
  intro name₂ c₂ ifd₂ steps₂ made₂ fits₂ ne tame tame₂ q stored q₂ stored₂ same
  have inside₂ := inside_after_iff lib conf name₂ c₂ ifd₂ made₂ steps₂ fits₂
  rcases inside.mpr tame q stored with window | eit
  · rcases inside₂.mpr tame₂ q₂ stored₂ with window₂ | eit₂
    · rw [same] at window
      exact absurd window₂ (window_disjoint ne window)
    · rw [same, eit₂]
  · exact eit

/-- A PAT, a PMT, the first PCR, and one packet of the stream `pid`. -/
def sampleSteps (pid : ℕ) : List InputStep :=
  (patPackets [⟨1, 0x100⟩] ++ pmtPackets 0x100 1 0x101 [0x101, 0x102] ++
    [pcrPacket 0x101 1, payloadPacket pid]).map InputStep.packet

private theorem fits_of_inits {c : Channel} {steps : List InputStep}
    (all : ∀ front ∈ steps.inits,
      (orgsDone (inputAfter sectionLibs (sampleConfig 0) "tv" c false front).stream).length ≤ 32) :
    Fits sectionLibs (sampleConfig 0) "tv" c false steps :=
  fun front part => all front ((List.mem_inits front steps).mpr part)

theorem stored_in_window_two_inputs :
    AllTame sectionLibs (sampleConfig 0) "tv" (sampleChannel 1 0) false (sampleSteps 0x102) ∧
    ∀ q ∈ (inputAfter sectionLibs (sampleConfig 0) "tv" (sampleChannel 1 0) false
        (sampleSteps 0x102)).buf.filled,
      ∀ q₂ ∈ (inputAfter sectionLibs (sampleConfig 0) "tv" (sampleChannel 2 0) false
          (sampleSteps 0x102)).buf.filled,
        sectionLibs.getPid q = sectionLibs.getPid q₂ → sectionLibs.getPid q = 0x12 := by
  have fits : Fits sectionLibs (sampleConfig 0) "tv" (sampleChannel 1 0) false
      (sampleSteps 0x102) := fits_of_inits (by decide +kernel)
  have fits₂ : Fits sectionLibs (sampleConfig 0) "tv" (sampleChannel 2 0) false
      (sampleSteps 0x102) := fits_of_inits (by decide +kernel)
  have made := sampleChannel_made (show 0 < 1 by norm_num) (show 1 < 256 by norm_num) 0
  have made₂ := sampleChannel_made (show 0 < 2 by norm_num) (show 2 < 256 by norm_num) 0
  have both := stored_in_window_iff sectionLibs (sampleConfig 0) "tv" (sampleChannel 1 0) false
    made (sampleSteps 0x102) fits
  have tame := both.1.mp (by decide +kernel)
  have tame₂ := (inside_after_iff sectionLibs (sampleConfig 0) "tv" (sampleChannel 2 0) false
    made₂ (sampleSteps 0x102) fits₂).mp (by decide +kernel)
  exact ⟨tame, both.2 "tv" (sampleChannel 2 0) false (sampleSteps 0x102) made₂ fits₂ (by decide)
    tame tame₂⟩

/-- Packets of a PID in neither table keep it, in the buffer of every input. -/
theorem unmapped_pid_shared :
    Fits sectionLibs (sampleConfig 0) "tv" (sampleChannel 1 0) false (sampleSteps 0x1f0) ∧
    Fits sectionLibs (sampleConfig 0) "tv" (sampleChannel 2 0) false (sampleSteps 0x1f0) ∧
    (∃ q ∈ (inputAfter sectionLibs (sampleConfig 0) "tv" (sampleChannel 1 0) false
        (sampleSteps 0x1f0)).buf.filled, sectionLibs.getPid q = 0x1f0) ∧
    ∃ q ∈ (inputAfter sectionLibs (sampleConfig 0) "tv" (sampleChannel 2 0) false
        (sampleSteps 0x1f0)).buf.filled, sectionLibs.getPid q = 0x1f0 :=
  ⟨fits_of_inits (by decide +kernel), fits_of_inits (by decide +kernel),
    List.mem_map.mp (by decide +kernel), List.mem_map.mp (by decide +kernel)⟩

end Mptsd.Intake.Window
