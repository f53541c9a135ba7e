/- Unit: Mptsd/Pipeline/Counters
   source: src/output_psi.c (output_add_pat .. output_add_eit), src/input.c (process_eit),
   src/output_mix.c (output_handle_mix), src/data.h (OUTPUT)
   digest: The continuity counters on the PIDs of the generated tables, as the network gets them:
   they advance by one as long as one counter numbers a PID. -/

import Mptsd.Pipeline.SyncByte

set_option autoImplicit false
set_option relaxedAutoImplicit false

namespace Mptsd.Pipeline.Counters

open Mptsd.TsPacket
open Mptsd.Channels (Channel)
open Mptsd.Conf (Config)
open Mptsd.Lib.Counter
open Mptsd.Lib.Queue (Fifo)
open Mptsd.PsiTables
open Mptsd.Psi.Model
open Mptsd.Psi.Refused (samplePsi sampleTimeFuncs)
open Mptsd.Intake.Model
open Mptsd.Intake.Stored
open Mptsd.Mixer.Model (Origin)
open Mptsd.Mixer.Fill (source)
open Mptsd.Mixer.Gate (slowConfig)
open Mptsd.Sections
open Mptsd.Pipeline.Model
open Mptsd.Pipeline.Flow
open Mptsd.Pipeline.Supply
open Mptsd.Pipeline.SyncByte (oneChannel)

/-- The counters of the packets of a PID, in their order. -/
def contsOf (ts : TsFuncs) (pid : ℕ) (packets : List Packet) : List ℕ :=
  (packets.filter fun p => ts.getPid p = pid).map ts.getCont

private theorem contsOf_append (ts : TsFuncs) (pid : ℕ) (a b : List Packet) :
    contsOf ts pid (a ++ b) = contsOf ts pid a ++ contsOf ts pid b := by
  unfold contsOf
  rw [List.filter_append, List.map_append]

private theorem contsOf_setConts {ts : TsFuncs} {pid : ℕ} {packets : List Packet}
    (pids : ∀ p ∈ packets, ts.getPid p = pid) (cont : ℕ) :
    contsOf ts pid (setConts ts cont packets) = cyclicRun 16 cont packets.length := by
  have all : (setConts ts cont packets).filter (fun p => ts.getPid p = pid) =
      setConts ts cont packets :=
    List.filter_eq_self.mpr fun p member => by simpa using pid_setConts ts pids p member
  rw [contsOf, all, conts_setConts]

private theorem contsOf_absent {ts : TsFuncs} {pid : ℕ} {packets : List Packet}
    (absent : ∀ p ∈ packets, ts.getPid p ≠ pid) : contsOf ts pid packets = [] := by
  rw [contsOf, List.filter_eq_nil_iff.mpr fun p member => by simpa using absent p member,
    List.map_nil]

variable {lib : Libs} {conf : Config} {tf : TimeFuncs lib.toTsFuncs}

section psi

private theorem Generator.pid_injective {g g' : Generator} (same : g.pid = g'.pid) : g = g' := by
  cases g <;> cases g' <;> first | rfl | cases same

/-- As long as nothing has been refused, the packets of each generator stand in the PSI buffer
numbered in a row, from the counter it started with. -/
def Row (psi o : PsiOutput lib.toTsFuncs) (b : Cbuf) : Prop :=
  b.refused = 0 → ∀ g : Generator, ∃ n,
    contsOf lib.toTsFuncs g.pid b.filled = cyclicRun 16 (psi.cont g) n ∧
      o.cont g % 16 = (psi.cont g + n) % 16

variable (tf) in
private theorem row_law (psi : PsiOutput lib.toTsFuncs) :
    PsiLaw lib tf (fun _ => True) (fun o b => Row psi o b) where
  read := by
    intro o b h none g
    rw [filled_cbufGet]
    exact h none g
  call := by
    intro o b call h _ none g
    cases psiCall_called lib tf o b call with
    | idle _ cont buf =>
        rw [buf] at none ⊢
        rw [cont]
        exact h none g
    | added t _ cont buf =>
        rw [buf] at none
        obtain ⟨stored, before⟩ := cbufFill_of_not_refused lib b _ none
        obtain ⟨n, conts, next⟩ := h before g
        rw [buf, stored, cont, Cbuf.toFifo_append, Fifo.filled_push, contsOf_append, conts]
        by_cases own : g = call.generator
        · subst own
          refine ⟨n + t.packets.length, ?_, ?_⟩
          · rw [contsOf_setConts t.pids, cyclicRun_add, ← cyclicRun_mod 16 (o.cont call.generator),
              next, cyclicRun_mod]
          · rw [Function.update_self]
            omega
        · refine ⟨n, ?_, ?_⟩
          · rw [contsOf_absent, List.append_nil]
            intro p member same
            exact own (Generator.pid_injective (same.symm.trans
              (pid_setConts lib.toTsFuncs t.pids p member)))
          · rw [Function.update_of_ne own]
            exact next

/-- The PSI thread has put no EIT into its buffer. -/
def NoEit (lib : Libs) (b : Cbuf) : Prop := ∀ q ∈ b.filled, lib.getPid q ≠ 0x12

/-- The call hands on no EIT. -/
def callsNoEit : PsiCall lib.toTsFuncs → Prop
  | .eit (some t) => t.packets = []
  | _ => True

variable (lib tf) in
private theorem noEit_law : PsiLaw lib tf callsNoEit (fun _ b => NoEit lib b) where
  read := by
    intro o b h q stored
    rw [filled_cbufGet] at stored
    exact h q stored
  call := by
    intro o b call h quiet q stored
    have other : call.generator ≠ .eit → lib.getPid q ≠ 0x12 := by
      intro other
      cases psiCall_called lib tf o b call with
      | idle _ _ buf =>
          rw [buf] at stored
          exact h q stored
      | added t _ _ buf =>
          rw [buf] at stored
          rcases filled_cbufFill lib b (setConts lib.toTsFuncs (o.cont call.generator) t.packets)
            with pushed | same
          · rw [pushed] at stored
            rcases List.mem_append.mp stored with old | new
            · exact h q old
            · intro eit
              exact other (Generator.pid_injective
                ((pid_setConts lib.toTsFuncs t.pids q new).symm.trans eit))
          · rw [same] at stored
            exact h q stored
    cases call with
    | pat => exact other (by simp [PsiCall.generator])
    | nit => exact other (by simp [PsiCall.generator])
    | sdt => exact other (by simp [PsiCall.generator])
    | tdt time => exact other (by simp [PsiCall.generator])
    | tot time => exact other (by simp [PsiCall.generator])
    | eit table =>
        cases table with
        | none => exact h q stored
        | some t =>
            have none : (t.setCont o.pidEitCont).packets = [] := by
              show setConts lib.toTsFuncs _ t.packets = []
              rw [show t.packets = [] from quiet]
              rfl
            have stored' : q ∈ (cbufFill lib b (t.setCont o.pidEitCont).packets).2.filled := stored
            rw [none] at stored'
            rcases filled_cbufFill lib b [] with pushed | same
            · rw [pushed, List.append_nil] at stored'
              exact h q stored'
            · rw [same] at stored'
              exact h q stored'

end psi

section inputs

/-- The EIT packets of an input. -/
def Rowed (lib : Libs) (c : Channel) (r : Input) : Prop := Stocked lib c r ∧ Numbered lib r

variable (lib conf) in
private theorem rowed_law : InputLaw lib conf (fun _ _ _ => True) (fun _ c r => Rowed lib c r) where
  start i c ifd := ⟨(stocked_law lib conf).start i c ifd, numbered_inputNew lib c.name c ifd⟩
  visited := by
    intro i c r r' h visited
    refine ⟨(stocked_law lib conf).visited (i := i) h.1 visited, ?_, ?_⟩
    · rw [visited.refused, visited.disabled]
      exact h.2.accepting
    · rw [visited.refused, visited.filled, visited.stream]
      exact h.2.conts
  step := by
    intro i c r e made low h _ _
    exact ⟨h.1.inputStep made low e, h.2.inputStep h.1 made low e⟩

variable (lib) in
/-- Only the source `e` hands on an EIT. -/
def HandsAlone (e : Option ℕ) (i : ℕ) (r : Input) : InputStep → Prop
  | .packet p => HandsEit lib r p → e = some i
  | _ => True

/-- The other inputs have no EIT packet in their buffers. -/
structure Eitless (lib : Libs) (e : Option ℕ) (i : ℕ) (c : Channel) (r : Input) : Prop where
  stocked : Stocked lib c r
  quiet : e ≠ some i → ∀ q ∈ r.buf.filled, lib.getPid q ≠ 0x12

variable (lib conf) in
private theorem eitless_law (e : Option ℕ) :
    InputLaw lib conf (HandsAlone lib e) (fun i c r => Eitless lib e i c r) where
  start i c ifd := ⟨(stocked_law lib conf).start i c ifd, fun _ _ stored => nomatch stored⟩
  visited := by
    intro i c r r' h visited
    refine ⟨(stocked_law lib conf).visited (i := i) h.stocked visited, ?_⟩
    rw [visited.filled]
    exact h.quiet
  step := by
    intro i c r step made low h other alone
    refine ⟨h.stocked.inputStep made low step, fun silent => ?_⟩
    cases step with
    | packet p =>
        show ∀ q ∈ (inputPacket lib conf r p).2.buf.filled, _
        have stores : Stores lib conf r p (inputPacket lib conf r p).2 :=
          h.stocked.stores made low p
        cases stores with
        | quiet buf =>
            rw [show (inputPacket lib conf r p).2.buf = r.buf from congrArg (fun v => v.2.1) buf]
            exact h.quiet silent
        | other data _ buf pids =>
            intro q stored
            rcases fifo_of_view buf with pushed | same
            · rw [Fifo.filled, pushed, ← Fifo.filled, Fifo.filled_push] at stored
              rcases List.mem_append.mp stored with old | new
              · exact h.quiet silent q old
              · exact (pids q new).2
            · rw [Fifo.filled, same, ← Fifo.filled] at stored
              exact h.quiet silent q stored
        | eit t own => exact absurd (alone own) silent
    | reconnect => exact h.quiet silent
    | take => exact absurd rfl other
    | stop => exact h.quiet silent

end inputs

/-- The PIDs the program generates tables on. -/
def generatedPids : List ℕ := [0x00, 0x10, 0x11, 0x12, 0x14]

/-- Nothing has been refused by any buffer. -/
def NoneRefused (s : World lib) : Prop :=
  s.mix.psibuf.refused = 0 ∧ ∀ r ∈ s.mix.inputs, r.buf.refused = 0

instance (s : World lib) : Decidable (NoneRefused s) := by
  rw [NoneRefused]
  infer_instance

/-- The counters of a PID in the transmitted stream. -/
def outConts (s : World lib) (pid : ℕ) : List ℕ := contsOf lib.toTsFuncs pid s.sent.flatten

/-- If the step hands on an EIT, it is one of source `e`: an input, or (`none`) the PSI thread with
the EPG. -/
def LoneEit (e : Option ℕ) (s : World lib) : WorldStep lib → Prop
  | .psi (.eit (some t)) => t.packets ≠ [] → e = none
  | .packet i p => ∀ r, s.mix.inputs[i]? = some r → HandsEit lib r p → e = some i
  | _ => True

section run

variable {lineup : Lineup} {psi : PsiOutput lib.toTsFuncs} {ifd ofd : Bool} {rtpSsrc : ℕ}

private theorem cyclic_of_prefix {l : List ℕ} {m start n : ℕ} (part : l <+: cyclicRun m start n) :
    Cyclic m l := by
  obtain ⟨rest, whole⟩ := part
  have cyclic := cyclic_cyclicRun m start n
  rw [← whole] at cyclic
  exact cyclic.left

private theorem cyclic_of_source {s : World lib} (flows : Flows conf s) {o : Origin}
    {b : Fifo Packet}
    (found : source s.mix o = some b) {pid start n : ℕ} (data : pid ≠ nullPid)
    (own : ∀ o' b', o' ≠ o → source s.mix o' = some b' → ∀ q ∈ b'.filled, lib.getPid q ≠ pid)
    (conts : contsOf lib.toTsFuncs pid b.filled = cyclicRun 16 start n) :
    Cyclic 16 (outConts s pid) := by
  have part := flows.conts_prefix found data fun o' b' other found' q taken =>
    own o' b' other found' q (List.mem_append_left _ taken)
  rw [show (b.filled.filter fun p => lib.getPid p = pid).map lib.getCont = cyclicRun 16 start n
    from conts] at part
  exact cyclic_of_prefix part

private theorem cyclic_of_generator {steps : List (WorldStep lib)}
    (none : NoneRefused (worldAfter conf tf lineup psi ifd ofd rtpSsrc steps)) (g : Generator)
    (own : ∀ r ∈ (worldAfter conf tf lineup psi ifd ofd rtpSsrc steps).mix.inputs,
      ∀ q ∈ r.buf.filled, lib.getPid q ≠ g.pid) :
    Cyclic 16 (outConts (worldAfter conf tf lineup psi ifd ofd rtpSsrc steps) g.pid) := by
  have flows : Flows conf (worldAfter conf tf lineup psi ifd ofd rtpSsrc steps) := flows_after steps
  have row : Row psi (worldAfter conf tf lineup psi ifd ofd rtpSsrc steps).psi
      (worldAfter conf tf lineup psi ifd ofd rtpSsrc steps).mix.psibuf :=
    psi_after (row_law tf psi) (fun _ g => ⟨0, rfl, rfl⟩) fun _ _ _ _ _ => trivial
  obtain ⟨n, conts, -⟩ := row none.1 g
  have data : g.pid ≠ nullPid := by
    rw [nullPid]
    cases g <;> decide
  refine cyclic_of_source flows (o := .psi) rfl data ?_ conts
  intro o b other found
  cases o with
  | psi => exact absurd rfl other
  | input i =>
      obtain ⟨r, at_i, rfl⟩ := Option.map_eq_some_iff.mp found
      exact own r (List.mem_of_getElem? at_i)

variable {e : Option ℕ} {steps : List (WorldStep lib)}

private theorem quiet_inputs
    (lone : AllMeet conf tf lineup psi ifd ofd rtpSsrc (LoneEit e) steps) :
    Each (fun i c r => Eitless lib e i c r) lineup.channels
      (worldAfter conf tf lineup psi ifd ofd rtpSsrc steps).mix.inputs := by
  refine each_after (eitless_law lib conf e) fun front step part i event r same found => ?_
  have alone := lone front step part
  cases step with
  | packet j p =>
      obtain ⟨rfl, rfl⟩ := Prod.mk.inj (Option.some.inj same)
      exact alone r found
  | reconnect j =>
      obtain ⟨-, rfl⟩ := Prod.mk.inj (Option.some.inj same)
      trivial
  | stop j =>
      obtain ⟨-, rfl⟩ := Prod.mk.inj (Option.some.inj same)
      trivial
  | psi call => cases same
  | mix => cases same
  | write stats io => cases same

private theorem quiet_psi {i : ℕ}
    (lone : AllMeet conf tf lineup psi ifd ofd rtpSsrc (LoneEit (some i)) steps) :
    NoEit lib (worldAfter conf tf lineup psi ifd ofd rtpSsrc steps).mix.psibuf := by
  refine psi_after (Q := fun _ b => NoEit lib b) (noEit_law lib tf) (fun _ stored => nomatch stored)
    fun front step part call same => ?_
  subst same
  have alone := lone front _ part
  cases call with
  | eit table =>
      cases table with
      | none => trivial
      | some t =>
          by_contra some
          cases alone some
  | pat => trivial
  | nit => trivial
  | sdt => trivial
  | tdt time => trivial
  | tot time => trivial

private theorem cyclic_of_loneEit
    (none : NoneRefused (worldAfter conf tf lineup psi ifd ofd rtpSsrc steps))
    (lone : AllMeet conf tf lineup psi ifd ofd rtpSsrc (LoneEit e) steps) :
    Cyclic 16 (outConts (worldAfter conf tf lineup psi ifd ofd rtpSsrc steps) 0x12) := by
  have quiet := quiet_inputs lone
  cases e with
  | none =>
      refine cyclic_of_generator none .eit fun r member => ?_
      obtain ⟨i, inside, rfl⟩ := List.mem_iff_getElem.mp member
      obtain ⟨c, -, eitless⟩ := quiet.exists_channel (List.getElem?_eq_getElem inside)
      exact eitless.quiet (by simp)
  | some i =>
      have flows : Flows conf (worldAfter conf tf lineup psi ifd ofd rtpSsrc steps) :=
        flows_after steps
      have rowed : Each (fun _ c r => Rowed lib c r) lineup.channels
          (worldAfter conf tf lineup psi ifd ofd rtpSsrc steps).mix.inputs :=
        each_after (rowed_law lib conf) fun _ _ _ _ _ _ _ _ => trivial
      have noEit := quiet_psi lone
      revert none quiet flows rowed noEit
      generalize worldAfter conf tf lineup psi ifd ofd rtpSsrc steps = s
      intro none quiet flows rowed noEit
      have others : ∀ o b, o ≠ .input i → source s.mix o = some b →
          ∀ q ∈ b.filled, lib.getPid q ≠ 0x12 := by
        intro o b other found
        cases o with
        | psi =>
            obtain rfl := Option.some.inj found
            exact noEit
        | input j =>
            obtain ⟨r, at_j, rfl⟩ := Option.map_eq_some_iff.mp found
            obtain ⟨c, -, eitless⟩ := quiet.exists_channel at_j
            exact eitless.quiet fun same => other (by rw [Option.some.inj same])
      have data : 0x12 ≠ nullPid := by
        rw [nullPid]
        decide
      cases there : s.mix.inputs[i]? with
      | none =>
          -- the PSI buffer has no EIT either
          have absent : contsOf lib.toTsFuncs 0x12 s.mix.psibuf.filled = cyclicRun 16 0 0 :=
            contsOf_absent noEit
          refine cyclic_of_source flows (o := .psi) rfl data ?_ absent
          intro o b _ found
          refine others o b (fun same => ?_) found
          subst same
          rw [source, there] at found
          cases found
      | some r =>
          obtain ⟨c, -, -, numbered⟩ := rowed.exists_channel there
          obtain ⟨n, conts, -⟩ := numbered.conts (none.2 r (List.mem_of_getElem? there))
          have found : source s.mix (.input i) = some r.buf.toFifo := by
            rw [source, there]
            rfl
          exact cyclic_of_source flows found data others conts

end run

/-- In every run in which no buffer overflows, the continuity counters advance by one on the PIDs
of the generated tables; on the PID of the EIT as long as only one source hands on EITs. -/
theorem counters_advance (lib : Libs) (conf : Config) (tf : TimeFuncs lib.toTsFuncs)
    (lineup : Lineup) (psi : PsiOutput lib.toTsFuncs) (ifd ofd : Bool) (rtpSsrc : ℕ)
    (steps : List (WorldStep lib))
    (none : NoneRefused (worldAfter conf tf lineup psi ifd ofd rtpSsrc steps)) :
    ∀ pid ∈ generatedPids,
      (pid = 0x12 → ∃ e, AllMeet conf tf lineup psi ifd ofd rtpSsrc (LoneEit e) steps) →
      Cyclic 16 (outConts (worldAfter conf tf lineup psi ifd ofd rtpSsrc steps) pid) := by
  have rowed : Each (fun _ c r => Stocked lib c r) lineup.channels
      (worldAfter conf tf lineup psi ifd ofd rtpSsrc steps).mix.inputs :=
    each_after (stocked_law lib conf) fun _ _ _ _ _ _ _ _ => trivial
  have carried : ∀ r ∈ (worldAfter conf tf lineup psi ifd ofd rtpSsrc steps).mix.inputs,
      ∀ q ∈ r.buf.filled, Carried (lib.getPid q) := by
    intro r member
    obtain ⟨i, inside, rfl⟩ := List.mem_iff_getElem.mp member
    obtain ⟨c, -, stocked⟩ := rowed.exists_channel (List.getElem?_eq_getElem inside)
    exact stocked.pids
  intro pid generated lone
  simp only [generatedPids, List.mem_cons, List.not_mem_nil, or_false] at generated
  rcases generated with rfl | rfl | rfl | rfl | rfl
  · exact cyclic_of_generator none .pat fun r member q stored => (carried r member q stored).1
  · exact cyclic_of_generator none .nit fun r member q stored => (carried r member q stored).2.1
  · exact cyclic_of_generator none .sdt fun r member q stored => (carried r member q stored).2.2.1
  · obtain ⟨e, alone⟩ := lone rfl
    exact cyclic_of_loneEit none alone
  · exact cyclic_of_generator none .pid0x14 fun r member q stored =>
      (carried r member q stored).2.2.2.1

private theorem pid_epgEit : sectionLibs.getPid (eitPacket 101) = 0x12 := by decide +kernel
private theorem sync_epgEit : eitPacket 101 0 = 0x47 := rfl

/-- An EIT of the channel, as it is made from the EPG. -/
def epgEit : PsiTable sectionLibs.toTsFuncs 0x12 where
  packets := [eitPacket 101]
  continuity := 0
  pids := List.forall_mem_singleton.mpr pid_epgEit
  sync := List.forall_mem_singleton.mpr sync_epgEit

/-- The PSI thread adds two PATs and two EITs, while an input gets its PAT. -/
def epgSteps : List (WorldStep sectionLibs) :=
  [.psi .pat, .psi (.eit (some epgEit)), .psi .pat] ++
    (patPackets [⟨1, 0x100⟩]).map (.packet 0) ++
    [.psi (.eit (some epgEit))] ++ List.replicate 12 .mix ++
    List.replicate 36 (.write false ⟨1316, 0, 0⟩)

/-- All threads after these steps, with one channel that forwards its EIT. -/
def epgWorld : World sectionLibs :=
  worldAfter slowConfig sampleTimeFuncs (oneChannel 1) samplePsi false false 0 epgSteps

private theorem loneEit_epgSteps (s : World sectionLibs) :
    ∀ step ∈ epgSteps, LoneEit none s step := by
  intro step member
  simp only [epgSteps, List.mem_append, List.mem_cons, List.not_mem_nil, or_false, List.mem_map,
    List.mem_replicate] at member
  rcases member with
    ((((rfl | rfl | rfl) | ⟨p, member, rfl⟩) | rfl) | ⟨-, rfl⟩) | ⟨-, rfl⟩
  · trivial
  · exact fun _ => rfl
  · trivial
  · intro r _ hands
    have pid : sectionLibs.getPid p = 0 := pid_sectionPackets (by norm_num) member
    rw [hands.1.2.1] at pid
    cases pid
  · exact fun _ => rfl
  · trivial
  · trivial

theorem counters_advance_epg :
    NoneRefused epgWorld ∧ outConts epgWorld 0x12 = [0, 1] ∧
      ∀ pid ∈ generatedPids, Cyclic 16 (outConts epgWorld pid) := by
  have none : NoneRefused epgWorld := by decide +kernel
  refine ⟨none, by decide +kernel, fun pid generated => ?_⟩
  exact counters_advance sectionLibs slowConfig sampleTimeFuncs (oneChannel 1) samplePsi false
    false 0 epgSteps none pid generated fun _ =>
      ⟨.none, fun front step part => loneEit_epgSteps _ step (part.subset (by simp))⟩

/-- An EIT from the EPG, and one that the input forwards. -/
def sharedSteps : List (WorldStep sectionLibs) :=
  [.psi (.eit (some epgEit)), .packet 0 (eitPacket 101)] ++ List.replicate 9 .mix ++
    List.replicate 22 (.write false ⟨1316, 0, 0⟩)

/-- All threads after these steps, with one channel that forwards its EIT. -/
def sharedWorld : World sectionLibs :=
  worldAfter slowConfig sampleTimeFuncs (oneChannel 1) samplePsi false false 0 sharedSteps

/-- Both counters start at zero, on the same PID. -/
theorem two_eits_collide :
    NoneRefused sharedWorld ∧ outConts sharedWorld 0x12 = [0, 0] ∧
      ¬ Cyclic 16 (outConts sharedWorld 0x12) := by
  have conts : outConts sharedWorld 0x12 = [0, 0] := by decide +kernel
  refine ⟨by decide +kernel, conts, ?_⟩
  rw [conts]
  rw [Cyclic]
  simp

end Mptsd.Pipeline.Counters
