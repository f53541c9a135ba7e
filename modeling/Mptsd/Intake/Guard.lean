/- Unit: Mptsd/Intake/Guard
   source: src/input.c (input_stream, process_pat, process_pmt), src/data.c (input_stream_reset)
   digest: Which packets an input forwards after a reset, and what comes before the first one. -/

import Mptsd.Intake.Effects

set_option autoImplicit false
set_option relaxedAutoImplicit false

namespace Mptsd.Intake.Guard

open Mptsd.TsPacket (Packet)
open Mptsd.Channels (sampleChannel)
open Mptsd.Conf (Config sampleConfig)
open Mptsd.PidTable
open Mptsd.PsiTables
open Mptsd.Sections (sectionLibs patPackets pmtPackets pcrPacket payloadPacket)
open Mptsd.Intake.Model
open Mptsd.Intake.Rewrite
open Mptsd.Intake.Frames
open Mptsd.Intake.StreamInvariant
open Mptsd.Intake.Effects

/-- The PIDs of the tables that are not forwarded, with the PMT PID and the NIT PID as the PAT
names them, and the PID of stuffing. -/
def OwnPid (s : InputStream) (pid : ℕ) : Prop :=
  pid = 0 ∨ (s.pmtPid ≠ 0 ∧ pid = s.pmtPid) ∨ pid = s.nitPid ∨
    pid ∈ [0x10, 0x11, 0x12, 0x13, 0x14, 0x1fff]

/-- A complete rewritten PMT was handed to `input_buffer_add`. -/
def HandsPmt (lib : Libs) (r r' : Input) : Prop :=
  ∃ M, r'.stream.pmtRewritten = some M ∧ M.initialized = true ∧
    bufView r' = bufView (inputBufferAdd lib r M.packets)

/-- Nothing was handed to `input_buffer_add` but tables the input has generated. -/
def HandsTables (lib : Libs) (conf : Config) (r r' : Input) : Prop :=
  bufView r' = bufView r ∨ HandsPmt lib r r' ∨
    ∃ cont t, bufView r' = bufView (inputBufferAdd lib r
      (setConts lib.toTsFuncs cont (rewrittenEit lib conf t).packets))

/-- The packet itself, with its new PID, was handed to `input_buffer_add`. -/
def HandsPacket (lib : Libs) (r r' : Input) (p : Packet) : Prop :=
  bufView r' = bufView (inputBufferAdd lib r
    [(pidrefChangePacketPid lib.toTsFuncs p (lib.getPid p) r.stream.pidref).2])

/-- What the flag `input_pcr` rests on. -/
structure Guarded (lib : Libs) (base : ℕ) (s : InputStream) : Prop extends Tracked lib base s where
  known : Known s
  pcr : s.inputPcr ≠ 0 → s.pmtRewritten.isSome = true
  pcrPid : s.pmtRewritten.isSome = true → s.pcrPid = s.pmt.pcrPid

/-- The fields the guard is about, and of the rewritten PMT its program number only. -/
def gateView (s : InputStream) : ℕ × Option ℕ × ℕ × TsPmt :=
  (s.inputPcr, s.pmtRewritten.map TsPmt.tsIdNumber, s.pcrPid, s.pmt)

variable {lib : Libs} {conf : Config} {base : ℕ} {r r' : Input} {s s' : InputStream} {p : Packet}

private theorem isSome_of_view (same : gateView s' = gateView s) :
    s'.pmtRewritten.isSome = s.pmtRewritten.isSome := by
  have number := congrArg (fun v => v.2.1.isSome) same
  simpa [gateView] using number

theorem Guarded.congr (h : Guarded lib base s) (same : gateView s' = gateView s)
    (tracked : Tracked lib base s') (known : Known s') : Guarded lib base s' := by
  have pmtRewritten := isSome_of_view same
  simp only [gateView, Prod.mk.injEq] at same
  obtain ⟨inputPcr, -, pcrPid, pmt⟩ := same
  refine ⟨tracked, known, ?_, ?_⟩
  · rw [inputPcr, pmtRewritten]
    exact h.pcr
  · rw [pmtRewritten, pcrPid, pmt]
    exact h.pcrPid

private theorem Guarded.pmt_push (h : Guarded lib base s) (rewritten : s.pmtRewritten.isSome = true)
    (p : Packet) : lib.pmt.push s.pmt p = s.pmt := by
  obtain ⟨M, some⟩ := Option.isSome_iff_exists.mp rewritten
  exact lib.pmt.push_initialized _ _ (h.pmt M some).2.1

section frame

variable (lib) (r)

@[simp] theorem gateView_processPat (pid : ℕ) (p : Packet) :
    gateView (processPat lib r pid p).2.1.stream = gateView r.stream := by
  obtain ⟨_, _, _, _, _, _, _, same⟩ := processPat_frame lib r pid p
  rw [same]
  rfl

@[simp] theorem gateView_emitPmt : gateView (emitPmt lib r).stream = gateView r.stream := by
  rcases emitPmt_cases lib r with same | ⟨M, rewritten, -, same⟩
  · rw [same]
  · rw [same, stream_inputBufferAdd]
    simp [gateView, countedPmt, rewritten]

end frame

theorem hands_emitPmt {M : TsPmt} (rewritten : r.stream.pmtRewritten = some M)
    (complete : M.initialized = true) : HandsPmt lib r (emitPmt lib r) := by
  rw [emitPmt, HandsPmt]
  rw [rewritten]
  dsimp only
  rw [if_pos complete, stream_inputBufferAdd]
  exact ⟨_, rfl, complete, bufView_inputBufferAdd_congr lib (bufView_onStream r _) _⟩

theorem HandsPmt.of_view (h : HandsPmt lib r r') {r₀ : Input} (same : bufView r = bufView r₀) :
    HandsPmt lib r₀ r' := by
  obtain ⟨M, rewritten, complete, buf⟩ := h
  exact ⟨M, rewritten, complete, buf.trans (bufView_inputBufferAdd_congr lib same _)⟩

private theorem guarded_inputRewritePmt (complete : r.stream.pmt.initialized = true)
    (tracked : Tracked lib base (inputRewritePmt lib r).stream)
    (known : Known (inputRewritePmt lib r).stream) :
    Guarded lib base (inputRewritePmt lib r).stream := by
  refine ⟨tracked, known, ?_, ?_⟩
  · intro _
    rw [pmtRewritten_inputRewritePmt complete]
    rfl
  · intro _
    rw [inputRewritePmt]
    rw [lib.pmt.copy_initialized _ complete]

private theorem processPmt_guard (h : Guarded lib base r.stream) (pid : ℕ) :
    Guarded lib base (processPmt lib r pid p).2.stream ∧
      (processPmt lib r pid p).2.stream.inputPcr = r.stream.inputPcr ∧
      ((bufView (processPmt lib r pid p).2 = bufView r ∧
          (processPmt lib r pid p).2.stream.pmtRewritten = r.stream.pmtRewritten) ∨
        HandsPmt lib r (processPmt lib r pid p).2) := by
  obtain ⟨tracked, known⟩ := tracked_processPmt h.toTracked h.known pid p
  have pushed : Guarded lib base (r.setPmt (lib.pmt.push r.stream.pmt p)).stream := by
    refine ⟨tracked_setPmt h.toTracked p, h.known, h.pcr, ?_⟩
    intro rewritten
    show r.stream.pcrPid = (lib.pmt.push r.stream.pmt p).pcrPid
    rw [h.pmt_push rewritten]
    exact h.pcrPid rewritten
  have noted : Guarded lib base
      (pushLastPmt lib (r.setPmt (lib.pmt.push r.stream.pmt p)) p).stream :=
    ⟨tracked_pushLastPmt pushed.toTracked p, pushed.known, pushed.pcr, pushed.pcrPid⟩
  rw [processPmt] at tracked known ⊢
  dsimp only at tracked known ⊢
  split_ifs at tracked known ⊢ with other incomplete changed complete again
  · exact ⟨h, rfl, Or.inl ⟨rfl, rfl⟩⟩
  · exact ⟨pushed, rfl, Or.inl ⟨rfl, rfl⟩⟩
  · exact ⟨pushed, rfl, Or.inl ⟨rfl, rfl⟩⟩
  · obtain ⟨M, rewritten⟩ := Option.isSome_iff_exists.mp (isSome_of_any again)
    refine ⟨noted.congr (gateView_emitPmt lib _) tracked known, ?_, Or.inr ?_⟩
    · exact congrArg Prod.fst (gateView_emitPmt lib _)
    · exact (hands_emitPmt rewritten (noted.pmt M rewritten).1).of_view rfl
  · have found : r.stream.pmtPid ≠ 0 := by
      rintro zero
      rw [zero] at other
      omega
    have whole := tracked_inputRewritePmt noted.toTracked complete
      (noted.toTracked.pmt_absent again) (noted.known found) found
    have known' : Known (inputRewritePmt lib
        (pushLastPmt lib (r.setPmt (lib.pmt.push r.stream.pmt p)) p)).stream := by
      rw [Known]
      rw [pmtPid_inputRewritePmt, patRewritten_inputRewritePmt]
      exact noted.known
    have fresh := guarded_inputRewritePmt complete whole known'
    have rewritten : (inputRewritePmt lib (pushLastPmt lib
        (r.setPmt (lib.pmt.push r.stream.pmt p)) p)).stream.pmtRewritten = some _ :=
      pmtRewritten_inputRewritePmt complete
    refine ⟨fresh.congr (gateView_emitPmt lib _) tracked known, ?_, Or.inr ?_⟩
    · apply (congrArg Prod.fst (gateView_emitPmt lib _)).trans
      rw [inputRewritePmt]
      split <;> rfl
    · exact (hands_emitPmt rewritten (whole.pmt _ rewritten).1).of_view
        (bufView_inputRewritePmt lib _)
  · exact ⟨noted, rfl, Or.inl ⟨rfl, rfl⟩⟩

private theorem processPmt_pending (h : Guarded lib base r.stream) (found : r.stream.pmtPid ≠ 0)
    (on : 0 ≤ (processPmt lib r r.stream.pmtPid p).1) : r.stream.pmtRewritten = none := by
  cases rewritten : r.stream.pmtRewritten with
  | none => rfl
  | some M =>
      exfalso
      have complete := (h.pmt M rewritten).2.1
      have pushed := lib.pmt.push_initialized _ p complete
      rw [processPmt] at on
      dsimp only at on
      rw [if_neg (by simp [found]), pushed, if_neg (by simp [complete])] at on
      split_ifs at on
      all_goals norm_num at on

variable (lib conf p) in
theorem gateView_processEit (clean : r.stream.eitRewritten = none) :
    gateView (processEit lib conf r p).2.stream = gateView r.stream := by
  rcases processEit_cases conf p clean with same | same | ⟨-, same⟩
  · rw [same]
  · rw [same]
    rfl
  · rw [same, stream_emitEit]
    rfl

/-- What one packet does: its handlers hand on tables, or it is forwarded itself; the flag is
raised by a forwarded packet only, and a new rewritten PMT is handed on. -/
structure Step (lib : Libs) (conf : Config) (base : ℕ) (r : Input) (p : Packet) (r' : Input) :
    Prop where
  guarded : Guarded lib base r'.stream
  hands : HandsTables lib conf r r' ∧ ¬ forwards lib r p ∨
    HandsPacket lib r r' p ∧ forwards lib r p
  flag : r'.stream.inputPcr ≠ 0 → r.stream.inputPcr ≠ 0 ∨ forwards lib r p
  pmt : r'.stream.pmtRewritten.isSome = true →
    r.stream.pmtRewritten.isSome = true ∨ HandsPmt lib r r'

private theorem HandsPmt.view_ne (h : HandsPmt lib r r') : bufView r' ≠ bufView r := by
  obtain ⟨M, -, -, buf⟩ := h
  intro same
  have fed := congrArg (fun v => v.1.length) (buf.symm.trans same)
  simp [bufView] at fed

theorem processPmt_other {pid : ℕ} (other : pid = 0 ∨ pid ≠ r.stream.pmtPid) :
    processPmt lib r pid p = (0, r) := by
  rw [processPmt]
  rw [if_pos other]

private theorem forwards_ne_pmtPid (h : Guarded lib base r.stream) (on : forwards lib r p) :
    lib.getPid p ≠ r.stream.pmtPid := by
  obtain ⟨-, nonzero, early, -, -, seen⟩ := on
  intro own
  have absent := processPmt_pending (p := p) h (own ▸ nonzero) (own ▸ early)
  obtain ⟨-, inputPcr, hands⟩ := processPmt_guard (p := p) h (lib.getPid p)
  have still : (processPmt lib r (lib.getPid p) p).2.stream.pmtRewritten = none := by
    rcases hands with ⟨-, same⟩ | hands
    · exact same.trans absent
    · exact absurd (pidref_processPmt early).2 hands.view_ne
  have down : r.stream.inputPcr = 0 := by
    by_contra up
    have := h.pcr up
    rw [absent] at this
    cases this
  apply seen
  rw [notePcr]
  rw [if_neg (by simp [still]), inputPcr, down]

private theorem forwards_opening (h : Guarded lib base r.stream) (on : forwards lib r p) :
    r.stream.pmtRewritten.isSome = true ∧
      (r.stream.inputPcr = 0 → lib.hasPcr p = true ∧ lib.getPcr p ≠ 0 ∧
        lib.getPid p = r.stream.pmt.pcrPid) := by
  have other := forwards_ne_pmtPid h on
  obtain ⟨-, -, -, -, -, seen⟩ := on
  rw [processPmt_other (Or.inr other)] at seen
  dsimp only at seen
  rw [notePcr] at seen
  by_cases opening : r.stream.pmtRewritten.isSome = true ∧ lib.getPid p = r.stream.pcrPid ∧
      lib.hasPcr p = true
  · rw [if_pos opening] at seen
    obtain ⟨rewritten, pid, pcr⟩ := opening
    exact ⟨rewritten, fun _ => ⟨pcr, seen, pid.trans (h.pcrPid rewritten)⟩⟩
  · rw [if_neg opening] at seen
    exact ⟨h.pcr seen, fun down => absurd down seen⟩

private theorem not_forwards_of_own (h : Guarded lib base r.stream)
    (own : OwnPid r.stream (lib.getPid p)) : ¬ forwards lib r p := by
  intro on
  have other := forwards_ne_pmtPid h on
  obtain ⟨-, nonzero, early, eit, dropped, -⟩ := on
  rw [processPmt_other (Or.inr other)] at dropped
  simp only [killed, Bool.or_eq_false_iff, decide_eq_false_iff_not] at dropped
  simp only [OwnPid, List.mem_cons, List.not_mem_nil, or_false] at own
  omega

private theorem guarded_notePcr (h : Guarded lib base r.stream) (pid : ℕ) (p : Packet) :
    Guarded lib base (notePcr lib r pid p).stream := by
  rw [notePcr]
  split
  · rename_i opening
    exact ⟨⟨h.pidref, h.pat, h.pmt, h.pmtPid, h.eit⟩, h.known, fun _ => opening.1, h.pcrPid⟩
  · exact h

private theorem step_of_view (view : gateView r'.stream = gateView r.stream)
    (guarded : Guarded lib base r'.stream)
    (hands : HandsTables lib conf r r' ∧ ¬ forwards lib r p) : Step lib conf base r p r' := by
  have flag : r'.stream.inputPcr = r.stream.inputPcr := congrArg Prod.fst view
  refine ⟨guarded, Or.inl hands, ?_, ?_⟩
  · rw [flag]
    exact Or.inl
  · rw [isSome_of_view view]
    exact Or.inl

private theorem step_of_pmt (h : Guarded lib base r.stream)
    (done : ¬ forwards lib r p) : Step lib conf base r p (processPmt lib r (lib.getPid p) p).2 := by
  obtain ⟨guarded, inputPcr, hands⟩ := processPmt_guard (p := p) h (lib.getPid p)
  refine ⟨guarded, Or.inl ⟨?_, done⟩, ?_, ?_⟩
  · rcases hands with ⟨same, -⟩ | hands
    · exact Or.inl same
    · exact Or.inr (Or.inl hands)
  · rw [inputPcr]
    exact Or.inl
  · intro rewritten
    rcases hands with ⟨-, same⟩ | hands
    · exact Or.inl (same ▸ rewritten)
    · exact Or.inr hands

private theorem gateView_processPmt (h : Guarded lib base r.stream) (pid : ℕ)
    (on : 0 ≤ (processPmt lib r pid p).1) :
    (processPmt lib r pid p).2.stream.inputPcr = r.stream.inputPcr ∧
      (processPmt lib r pid p).2.stream.pmtRewritten = r.stream.pmtRewritten := by
  obtain ⟨-, inputPcr, hands⟩ := processPmt_guard (p := p) h pid
  rcases hands with ⟨-, same⟩ | hands
  · exact ⟨inputPcr, same⟩
  · exact absurd (pidref_processPmt on).2 hands.view_ne

variable (conf) in
theorem inputPacket_step (h : Guarded lib base r.stream) (p : Packet) :
    Step lib conf base r p (inputPacket lib conf r p).2 := by
  cases alive : r.dienow with
  | true =>
      rw [inputPacket_of_dead alive]
      refine step_of_view rfl h ⟨Or.inl rfl, ?_⟩
      rintro ⟨dead, -⟩
      rw [alive] at dead
      cases dead
  | false =>
      by_cases pid : lib.getPid p = 0
      · rw [inputPacket_of_pat alive pid]
        have view := gateView_processPat lib r 0 p
        obtain ⟨tracked, known⟩ := tracked_processPat h.toTracked h.known 0 p
        exact step_of_view view (h.congr view tracked known)
          ⟨Or.inl (bufView_processPat lib r 0 p), fun on => on.2.1 pid⟩
      · obtain ⟨guarded, -, -⟩ := processPmt_guard (p := p) h (lib.getPid p)
        rw [inputPacket_of_other alive pid]
        dsimp only
        split_ifs with reconnect early eit dropped
        · exact step_of_pmt h fun on => by
            have := on.2.2.1
            omega
        · exact step_of_pmt h fun on => by
            have := on.2.2.1
            omega
        · have on : 0 ≤ (processPmt lib r (lib.getPid p) p).1 := by omega
          obtain ⟨inputPcr, pmtRewritten⟩ := gateView_processPmt h (lib.getPid p) on
          have same := (pidref_processPmt on).2
          have view := gateView_processEit lib conf p guarded.eit
          obtain ⟨tracked, known⟩ : Tracked lib base (processEit lib conf _ p).2.stream ∧
              Known (processEit lib conf _ p).2.stream :=
            tracked_processEit guarded.toTracked guarded.known p
          have kept := guarded.congr view tracked known
          have pmt := isSome_of_view view
          simp only [gateView, Prod.mk.injEq] at view
          obtain ⟨flag, -⟩ := view
          refine ⟨kept, Or.inl ⟨?_, fun on => on.2.2.2.1 eit⟩, ?_, ?_⟩
          · rcases processEit_effect lib conf p guarded.eit with ⟨buf, -⟩ | ⟨t, -, buf, -⟩
            · exact Or.inl (buf.trans same)
            · exact Or.inr (Or.inr ⟨_, t, buf.trans (bufView_inputBufferAdd_congr lib same _)⟩)
          · intro up
            left
            rw [← inputPcr, ← flag]
            exact up
          · intro rewritten
            left
            rw [← pmtRewritten, ← pmt]
            exact rewritten
        · exact step_of_pmt h fun on => by
            have := on.2.2.2.2.1
            rw [dropped] at this
            cases this
        · have on : 0 ≤ (processPmt lib r (lib.getPid p) p).1 := by omega
          obtain ⟨inputPcr, pmtRewritten⟩ := gateView_processPmt h (lib.getPid p) on
          obtain ⟨pidref, same⟩ := pidref_processPmt on
          have effect := forwardPacket_effect lib (processPmt lib r (lib.getPid p) p).2
            (lib.getPid p) p
          have noted := guarded_notePcr guarded (lib.getPid p) p
          have stays : (notePcr lib (processPmt lib r (lib.getPid p) p).2 (lib.getPid p)
              p).stream.pmtRewritten = r.stream.pmtRewritten := by
            rw [← pmtRewritten]
            rw [notePcr]
            split <;> rfl
          rw [pidref] at effect
          refine ⟨?_, ?_, ?_, ?_⟩
          · rw [forwardPacket_stream]
            exact noted
          · split_ifs at effect with seen
            · exact Or.inr ⟨effect.trans (bufView_inputBufferAdd_congr lib same _), alive, pid, on,
                eit, by simpa using dropped, seen⟩
            · exact Or.inl ⟨Or.inl (effect.trans same), fun on => seen on.2.2.2.2.2⟩
          · rw [forwardPacket_stream]
            intro up
            exact Or.inr ⟨alive, pid, on, eit, by simpa using dropped, up⟩
          · rw [forwardPacket_stream, stays]
            exact Or.inl

section run

variable (lib conf r)

/-- The input after a reset and these steps. -/
def afterReset (steps : List InputStep) : Input :=
  inputRun lib conf (inputStreamReset lib r) steps

/-- No packet of these steps was forwarded. -/
def NoneForwarded (steps : List InputStep) : Prop :=
  ∀ done q rest, steps = done ++ .packet q :: rest → ¬ forwards lib (afterReset lib conf r done) q

/-- In one of these steps a complete rewritten PMT was handed to `input_buffer_add`. -/
def PmtHanded (steps : List InputStep) : Prop :=
  ∃ done q rest, steps = done ++ .packet q :: rest ∧
    HandsPmt lib (afterReset lib conf r done) (afterReset lib conf r (done ++ [.packet q]))

/-- The packet that raises the flag: it has a PCR other than 0 on the PCR PID of a complete PMT,
and every PID of the PAT and of the PMT has been given a new one. -/
structure Opens (s : InputStream) (p : Packet) : Prop where
  hasPcr : lib.hasPcr p = true
  pcr : lib.getPcr p ≠ 0
  complete : s.pat.initialized = true ∧ s.pmt.initialized = true
  pid : lib.getPid p = s.pmt.pcrPid
  table : s.pidref = (assignPids (pidrefInit 64 (uint16 r.channel.basePid))
    (patOrgs s.pat.programs ++ pmtOrgs s.pmt)).2

variable {lib conf r}

theorem afterReset_concat (steps : List InputStep) (step : InputStep) :
    afterReset lib conf r (steps ++ [step]) =
      inputStep lib conf (afterReset lib conf r steps) step := by
  simp [afterReset, inputRun]

theorem guarded_reset :
    Guarded lib (uint16 r.channel.basePid) (inputStreamReset lib r).stream := by
  obtain ⟨tracked, known⟩ := tracked_inputStreamReset lib r
  refine ⟨tracked, known, fun up => absurd rfl up, ?_⟩
  intro rewritten
  cases rewritten

theorem NoneForwarded.init {steps : List InputStep} {step : InputStep}
    (none : NoneForwarded lib conf r (steps ++ [step])) : NoneForwarded lib conf r steps := by
  intro done q rest split
  exact none done q (rest ++ [step]) (by simp [split])

theorem PmtHanded.concat {steps : List InputStep} (handed : PmtHanded lib conf r steps)
    (step : InputStep) : PmtHanded lib conf r (steps ++ [step]) := by
  obtain ⟨done, q, rest, split, hands⟩ := handed
  exact ⟨done, q, rest ++ [step], by simp [split], hands⟩

variable (lib conf r) in
private theorem guarded_run (steps : List InputStep)
    (connected : ∀ step ∈ steps, step ≠ .reconnect) :
    Guarded lib (uint16 r.channel.basePid) (afterReset lib conf r steps).stream ∧
      (NoneForwarded lib conf r steps → (afterReset lib conf r steps).stream.inputPcr = 0) ∧
      ((afterReset lib conf r steps).stream.pmtRewritten.isSome = true →
        PmtHanded lib conf r steps) := by
  induction steps using List.reverseRecOn with
  | nil =>
      refine ⟨guarded_reset, fun _ => rfl, ?_⟩
      intro rewritten
      cases rewritten
  | append_singleton steps step ih =>
      obtain ⟨guarded, down, handed⟩ := ih fun s member =>
        connected s (List.mem_append_left _ member)
      cases step with
      | packet p =>
          have effect := inputPacket_step conf guarded p
          refine ⟨?_, ?_, ?_⟩
          · rw [afterReset_concat]
            exact effect.guarded
          · intro none
            by_contra up
            rw [afterReset_concat] at up
            rcases effect.flag up with before | on
            · exact before (down none.init)
            · exact none steps p [] rfl on
          · intro rewritten
            have last := rewritten
            rw [afterReset_concat] at last
            rcases effect.pmt last with before | hands
            · exact (handed before).concat _
            · refine ⟨steps, p, [], rfl, ?_⟩
              rw [afterReset_concat]
              exact hands
      | reconnect => exact absurd rfl (connected .reconnect (by simp))
      | take =>
          rw [afterReset_concat]
          exact ⟨guarded, fun none => down none.init, fun rewritten => (handed rewritten).concat _⟩
      | stop =>
          rw [afterReset_concat]
          exact ⟨guarded, fun none => down none.init, fun rewritten => (handed rewritten).concat _⟩

variable (lib conf r) in
/-- What a packet `p` that comes after these steps meets. -/
structure Admitted (steps : List InputStep) (p : Packet) : Prop where
  own : OwnPid (afterReset lib conf r steps).stream (lib.getPid p) →
    HandsTables lib conf (afterReset lib conf r steps)
      (afterReset lib conf r (steps ++ [.packet p]))
  hands : HandsTables lib conf (afterReset lib conf r steps)
        (afterReset lib conf r (steps ++ [.packet p])) ∧
        ¬ forwards lib (afterReset lib conf r steps) p ∨
      HandsPacket lib (afterReset lib conf r steps)
        (afterReset lib conf r (steps ++ [.packet p])) p ∧
        forwards lib (afterReset lib conf r steps) p
  first : NoneForwarded lib conf r steps → forwards lib (afterReset lib conf r steps) p →
    Opens lib r (afterReset lib conf r steps).stream p ∧ PmtHanded lib conf r steps

/-- After a reset: a packet of a table is never handed on itself, every packet is either handed on
itself or leaves only generated tables, and the first one that is handed on opens the stream, after
a complete rewritten PMT. -/
theorem admitted_after_reset (lib : Libs) (conf : Config) (r : Input) (steps : List InputStep)
    (connected : ∀ step ∈ steps, step ≠ .reconnect) (p : Packet) :
    Admitted lib conf r steps p := by
  obtain ⟨guarded, down, handed⟩ := guarded_run lib conf r steps connected
  have effect := inputPacket_step conf guarded p
  have hands := effect.hands
  have next : (inputPacket lib conf (afterReset lib conf r steps) p).2 =
      afterReset lib conf r (steps ++ [.packet p]) := (afterReset_concat steps (.packet p)).symm
  rw [next] at hands
  refine ⟨?_, hands, ?_⟩
  · intro own
    rcases hands with ⟨tables, -⟩ | ⟨-, on⟩
    · exact tables
    · exact absurd on (not_forwards_of_own guarded own)
  · intro none on
    obtain ⟨rewritten, opening⟩ := forwards_opening guarded on
    obtain ⟨pcr, value, pid⟩ := opening (down none)
    obtain ⟨M, some⟩ := Option.isSome_iff_exists.mp rewritten
    obtain ⟨-, whole, pat, -, -⟩ := guarded.pmt M some
    obtain ⟨P, somePat⟩ := Option.isSome_iff_exists.mp pat
    refine ⟨⟨pcr, value, ⟨(guarded.pat P somePat).2, whole⟩, pid, ?_⟩, handed rewritten⟩
    rw [guarded.pidref, orgsDone, if_pos pat, if_pos rewritten]

end run

instance (r : Input) (p : Packet) : Decidable (forwards lib r p) := by
  rw [forwards]
  infer_instance

/-- A PAT, a PMT and the first PCR. -/
def openingSteps : List InputStep :=
  (patPackets [⟨1, 0x100⟩] ++ pmtPackets 0x100 1 0x101 [0x101, 0x102] ++
    [pcrPacket 0x101 1]).map InputStep.packet

private theorem connected_openingSteps : ∀ step ∈ openingSteps, step ≠ .reconnect := lasts_packets _

theorem admitted_after_opening :
    Admitted sectionLibs (sampleConfig 0) (inputNew sectionLibs "tv" (sampleChannel 1 0) false)
      openingSteps (payloadPacket 0x102) :=
  admitted_after_reset sectionLibs (sampleConfig 0)
    (inputNew sectionLibs "tv" (sampleChannel 1 0) false) openingSteps
    connected_openingSteps (payloadPacket 0x102)

/-- An input that has been disabled and whose buffer is one packet above the half. -/
def crowded : Input :=
  { inputNew sectionLibs "tv" (sampleChannel 1 0) false with
    disabled := true
    buf := (Cbuf.init (1428 * 1316 * 4)).append (List.replicate 19993 (payloadPacket 0x20)) }

/-- The buffer refuses the packet that opens the stream; after the mixer has taken a packet it
stores the next one, which has no PCR. -/
theorem first_stored_without_pcr :
    (afterReset sectionLibs (sampleConfig 0) crowded (openingSteps ++ [.take])).buf.filled.length =
        crowded.buf.filled.length ∧
      forwards sectionLibs
        (afterReset sectionLibs (sampleConfig 0) crowded (openingSteps.take 2))
        (pcrPacket 0x101 1) ∧
      forwards sectionLibs
        (afterReset sectionLibs (sampleConfig 0) crowded (openingSteps ++ [.take]))
        (payloadPacket 0x102) ∧
      (afterReset sectionLibs (sampleConfig 0) crowded
          (openingSteps ++ [.take, .packet (payloadPacket 0x102)])).buf.filled.length =
        crowded.buf.filled.length + 1 ∧
      sectionLibs.hasPcr (payloadPacket 0x102) = false := by
  decide +kernel

end Mptsd.Intake.Guard
