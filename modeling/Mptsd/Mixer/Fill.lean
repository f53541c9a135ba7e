/- Unit: Mptsd/Mixer/Fill
   source: src/output_mix.c (output_handle_mix)
   digest: What a fill removes from the buffers is what it copies into the output buffer. -/

import Mptsd.Lib.Sheet
import Mptsd.Mixer.Model
import Mptsd.Sections

set_option autoImplicit false
set_option relaxedAutoImplicit false

namespace Mptsd.Mixer.Fill

open Mptsd.TsPacket (Packet TsFuncs tsPacketSize nullPid nullPacket headerFuncs)
open Mptsd.Channels (sampleChannel)
open Mptsd.Conf (Config sampleConfig)
open Mptsd.Lib.Queue (Fifo)
open Mptsd.Lib.Sheet (Laid laid_blank)
open Mptsd.PsiTables (Cbuf cbufGet cbufPeek cbufGet_of_nil cbufGet_of_cons)
open Mptsd.Sections (payloadPacket sectionLibs)
open Mptsd.Intake.Model (Input inputNew)
open Mptsd.Mixer.Model

/-- The buffer a packet can come from. -/
def source (s : Mix) : Origin → Option (Fifo Packet)
  | .psi => some s.psibuf.toFifo
  | .input i => s.inputs[i]?.map (fun r => r.buf.toFifo)

/-- The packets of one origin. -/
def takenFrom (o : Origin) (l : List (Origin × Packet)) : List Packet :=
  (l.filter (fun x => x.1 = o)).map Prod.snd

@[simp] theorem takenFrom_nil (o : Origin) : takenFrom o [] = [] := rfl

theorem takenFrom_append_same (o : Origin) (l : List (Origin × Packet)) (p : Packet) :
    takenFrom o (l ++ [(o, p)]) = takenFrom o l ++ [p] := by
  simp [takenFrom]

theorem takenFrom_append_other {o o' : Origin} (ne : o' ≠ o) (l : List (Origin × Packet))
    (p : Packet) : takenFrom o (l ++ [(o', p)]) = takenFrom o l := by
  simp [takenFrom, ne]

/-- The packet that has been removed and not been copied yet. -/
def pending : Pc → List Packet
  | .send (some p) => [p]
  | _ => []

/-- The packets stored in all buffers. -/
def available (s : Mix) : ℕ :=
  s.psibuf.waiting.length + (s.inputs.map (fun r => r.buf.waiting.length)).sum

section arithmetic

theorem mixNulls_le {b : Budget} {nulls : ℕ} (le : nulls ≤ b.nullPackets) (dataPackets : ℕ) :
    mixNulls b nulls dataPackets ≤ b.nullPackets := by
  rw [mixNulls]
  dsimp only
  split_ifs <;> omega

theorem le_mixNulls (b : Budget) (nulls dataPackets : ℕ) :
    nulls ≤ mixNulls b nulls dataPackets := by
  rw [mixNulls]
  dsimp only
  split_ifs <;> omega

theorem budget_packets_le (maxPackets datasize : ℕ) :
    (budget maxPackets datasize).packets ≤ maxPackets ∧
      (budget maxPackets datasize).packets ≤ datasize / tsPacketSize ∧
      (budget maxPackets datasize).maxPackets = maxPackets := by
  unfold budget
  dsimp only
  split_ifs <;> exact ⟨min_le_right _ _, min_le_left _ _, rfl⟩

theorem stepNode_eq {items node : ℕ} (some : 0 < items) (le : node ≤ items) :
    stepNode items node = node % items + 1 := by
  unfold stepNode nextNode
  rcases le.lt_or_eq with inside | rfl
  · rw [Nat.mod_eq_of_lt (show node + 1 < items + 1 by omega), if_neg (by omega),
      Nat.mod_eq_of_lt inside]
  · rw [Nat.mod_self, if_pos rfl, Nat.mod_self, Nat.zero_add,
      Nat.mod_eq_of_lt (show 1 < node + 1 by omega)]

private theorem sum_set_pred {l : List ℕ} {i k : ℕ} (h : l[i]? = some (k + 1)) :
    (l.set i k).sum + 1 = l.sum := by
  induction l generalizing i with
  | nil => simp at h
  | cons a rest ih =>
      cases i with
      | zero =>
          obtain rfl : a = k + 1 := by simpa using h
          simp only [List.set_cons_zero, List.sum_cons]
          omega
      | succ i =>
          have := ih (i := i) (by simpa using h)
          simp only [List.set_cons_succ, List.sum_cons]
          omega

end arithmetic

variable (ts : TsFuncs) (conf : Config)

@[simp] theorem buf_pcrGate (maxPackets : ℕ) (r : Input) (p : Packet) :
    (pcrGate ts conf maxPackets r p).2.buf = r.buf := by
  rw [pcrGate]
  by_cases pcr : ts.getPid p = r.outputPcrPid ∧ ts.hasPcr p = true
  · rw [if_pos pcr]
    dsimp only
    generalize (if r.outputLastPcr ≠ 0 ∧ r.outputPcrPacketsNeeded ≤ 0 then
      packetsNeeded conf maxPackets (ts.getPcr p) r.outputLastPcr
      else r.outputPcrPacketsNeeded) = needed
    by_cases held : needed > 0 ∧ r.outputedPackets < needed
    · rw [if_pos held]
    · rw [if_neg held]
  · rw [if_neg pcr]

theorem visitInput_cases (maxPackets : ℕ) {r : Input}
    (clean : ∀ p ∈ r.buf.waiting, ts.getPid p ≠ nullPid) :
    (r.buf.waiting = [] ∧ ((visitInput ts conf maxPackets r).1 = .skipped ∨
        (visitInput ts conf maxPackets r).1 = .empty) ∧
        (visitInput ts conf maxPackets r).2.buf = r.buf) ∨
      ((visitInput ts conf maxPackets r).1 = .held ∧
        (visitInput ts conf maxPackets r).2.buf = r.buf) ∨
      ∃ p rest, r.buf.waiting = p :: rest ∧ (visitInput ts conf maxPackets r).1 = .data p ∧
        (visitInput ts conf maxPackets r).2.buf = (cbufGet r.buf).2 := by
  have read : ∀ r' : Input, r'.buf = r.buf →
      (r.buf.waiting = [] ∧ (readInput ts r').1 = .empty ∧ (readInput ts r').2.buf = r.buf) ∨
      ∃ p rest, r.buf.waiting = p :: rest ∧ (readInput ts r').1 = .data p ∧
        (readInput ts r').2.buf = (cbufGet r.buf).2 := by
    intro r' same
    rw [readInput]
    rw [same]
    cases h : r.buf.waiting with
    | nil =>
        rw [cbufGet_of_nil h]
        exact Or.inl ⟨rfl, rfl, rfl⟩
    | cons p rest =>
        rw [cbufGet_of_cons h]
        have pid : ts.getPid p < 0x1fff := by
          have below := ts.getPid_lt p
          have ne := clean p (by simp [h])
          rw [nullPid] at ne
          omega
        exact Or.inr ⟨p, rest, rfl, by simp [pid], rfl⟩
  rw [visitInput]
  split
  · cases h : r.buf.waiting with
    | nil =>
        rw [show cbufPeek r.buf = none by simp [cbufPeek, Fifo.peek, h]]
        exact Or.inl ⟨rfl, Or.inl rfl, rfl⟩
    | cons p rest =>
        rw [show cbufPeek r.buf = some p by simp [cbufPeek, Fifo.peek, h]]
        dsimp only
        split
        · exact Or.inr (Or.inl ⟨rfl, buf_pcrGate ts conf maxPackets r p⟩)
        · rcases read _ (buf_pcrGate ts conf maxPackets r p) with ⟨nil, -⟩ | moved
          · rw [h] at nil
            cases nil
          · rw [h] at moved
            exact Or.inr (Or.inr moved)
  · rcases read r rfl with ⟨nil, empty, buf⟩ | moved
    · exact Or.inl ⟨nil, Or.inr empty, buf⟩
    · exact Or.inr (Or.inr moved)

/-- Where the mixer stands within a fill. In the loop over the inputs, as long as nothing has been
read one of the inputs still to come has a packet. -/
def Stands (s : Mix) : Pc → Prop
  | .waiting => False
  | .psi => s.dataPackets ≤ s.budget.packets
  | .scan left readCount => s.dataPackets < s.budget.packets ∧ left ≤ s.inputs.length ∧
      (readCount = 0 → ∃ j < left, ∃ r, s.inputs[(s.node + j) % s.inputs.length]? = some r ∧
        r.buf.waiting ≠ [])
  | .send _ => s.dataPackets < s.budget.packets
  | .full => True

/-- The invariant of a fill that began in `s₀`. -/
structure Filling (s₀ s : Mix) : Prop where
  items : s.inputs.length = s₀.inputs.length
  size : s.maxPackets = s₀.maxPackets
  room : s.budget.packets ≤ s.maxPackets
  whole : s.budget.maxPackets = s.maxPackets
  node : s.node ≤ s.inputs.length
  nulls : s.nulls ≤ s.budget.nullPackets
  clean : ∀ r ∈ s.inputs, ∀ p ∈ r.buf.waiting, ts.getPid p ≠ nullPid
  sources : ∀ o q, source s o = some q → ∃ q₀ arrived, source s₀ o = some q₀ ∧
    q₀.waiting ++ arrived = takenFrom o s.removed ++ q.waiting
  length : s.buf.length = s.maxPackets
  laid : Laid nullPacket s.copied (s.dataPackets + s.nulls) s.buf
  moved : s.removed.map Prod.snd = s.copied.map Prod.snd ++ pending s.pc
  enough : s.budget.packets ≤ s.removed.length + available s
  spent : s.removed.length ≤ s.dataPackets + (pending s.pc).length
  retries : s.retries = s₀.retries
  overruns : s.overruns = s₀.overruns
  stands : Stands s s.pc

@[simp] theorem buf_countPackets (n : ℕ) (r : Input) : (countPackets n r).buf = r.buf := rfl

@[simp] theorem waiting_countPackets (n : ℕ) (l : List Input) :
    (l.map (countPackets n)).map (fun r => r.buf.waiting.length) =
      l.map (fun r => r.buf.waiting.length) := by
  simp [Function.comp_def]

private theorem clean_countPackets (n : ℕ) {l : List Input}
    (clean : ∀ r ∈ l, ∀ p ∈ r.buf.waiting, ts.getPid p ≠ nullPid) :
    ∀ r ∈ l.map (countPackets n), ∀ p ∈ r.buf.waiting, ts.getPid p ≠ nullPid := by
  intro r member
  obtain ⟨r', member', rfl⟩ := List.mem_map.mp member
  exact clean r' member'

theorem source_countPackets (n : ℕ) {s s' : Mix} (psibuf : s'.psibuf = s.psibuf)
    (inputs : s'.inputs = s.inputs.map (countPackets n)) (o : Origin) :
    source s' o = source s o := by
  cases o with
  | psi => simp [source, psibuf]
  | input i =>
      simp only [source, inputs, List.getElem?_map, Option.map_map]
      rfl

private theorem packets_le_available (s : Mix) :
    (budget s.maxPackets (dataSize s.psibuf s.inputs)).packets ≤ available s := by
  have le := (budget_packets_le s.maxPackets (dataSize s.psibuf s.inputs)).2.1
  have stored : s.psibuf.stored + (s.inputs.map (fun r => r.buf.stored)).sum =
      tsPacketSize * available s := by
    have sum : (s.inputs.map (fun r => r.buf.stored)).sum =
        tsPacketSize * (s.inputs.map (fun r => r.buf.waiting.length)).sum := by
      rw [← List.sum_map_mul_left]
      rfl
    rw [sum, available, Nat.mul_add]
    rfl
  have bounded : dataSize s.psibuf s.inputs ≤ tsPacketSize * available s := by
    rw [dataSize, stored]
    exact Nat.mod_le _ _
  calc (budget s.maxPackets (dataSize s.psibuf s.inputs)).packets
      ≤ dataSize s.psibuf s.inputs / tsPacketSize := le
    _ ≤ tsPacketSize * available s / tsPacketSize := Nat.div_le_div_right bounded
    _ = available s := Nat.mul_div_cancel_left _ (by unfold tsPacketSize; norm_num)

section steps

variable {ts} {s₀ s : Mix}

theorem filling_startFill (node : s.node ≤ s.inputs.length)
    (clean : ∀ r ∈ s.inputs, ∀ p ∈ r.buf.waiting, ts.getPid p ≠ nullPid) :
    Filling ts s (startFill s) := by
  obtain ⟨room, -, whole⟩ := budget_packets_le s.maxPackets (dataSize s.psibuf s.inputs)
  have enough := packets_le_available s
  have blank : Laid nullPacket [] 0 (List.replicate s.maxPackets nullPacket) := laid_blank _ _
  rw [startFill]
  dsimp only
  split
  · refine ⟨by simp, rfl, room, whole, by simpa using node, Nat.zero_le _,
      clean_countPackets ts _ clean, ?_, List.length_replicate, blank, rfl, ?_, le_rfl, rfl, rfl,
      trivial⟩
    · intro o q found
      rw [source_countPackets s.maxPackets (by rfl) (by rfl) (s := s)] at found
      exact ⟨q, [], found, by simp⟩
    · simp only [available, waiting_countPackets, List.length_nil, Nat.zero_add]
      exact enough
  · refine ⟨rfl, rfl, room, whole, node, Nat.zero_le _, clean, ?_, List.length_replicate, blank,
      rfl, ?_, le_rfl, rfl, rfl, Nat.zero_le _⟩
    · intro o q found
      exact ⟨q, [], found, by simp⟩
    · simpa [available] using enough

private theorem exists_offset {items i : ℕ} (node : ℕ) (inside : i < items) :
    ∃ j < items, (node + j) % items = i := by
  refine ⟨(i + (items - node % items)) % items, Nat.mod_lt _ (by omega), ?_⟩
  have below : node % items < items := Nat.mod_lt _ (by omega)
  rw [Nat.add_mod_mod, ← Nat.mod_add_mod,
    show node % items + (i + (items - node % items)) = i + items by omega, Nat.add_mod_right,
    Nat.mod_eq_of_lt inside]

private theorem sources_removed {s' : Mix} {o : Origin} {p : Packet}
    (h : ∀ o q, source s o = some q → ∃ q₀ arrived, source s₀ o = some q₀ ∧
      q₀.waiting ++ arrived = takenFrom o s.removed ++ q.waiting)
    (removed : s'.removed = s.removed ++ [(o, p)])
    (own : ∀ q', source s' o = some q' → ∃ q, source s o = some q ∧ q.waiting = p :: q'.waiting)
    (others : ∀ o', o' ≠ o → source s' o' = source s o') :
    ∀ o q, source s' o = some q → ∃ q₀ arrived, source s₀ o = some q₀ ∧
      q₀.waiting ++ arrived = takenFrom o s'.removed ++ q.waiting := by
  intro o' q' found
  rw [removed]
  by_cases same : o' = o
  · subst same
    obtain ⟨q, before, next⟩ := own q' found
    obtain ⟨q₀, arrived, first, split⟩ := h o' q before
    refine ⟨q₀, arrived, first, ?_⟩
    rw [split, next, takenFrom_append_same]
    simp
  · rw [others o' same] at found
    obtain ⟨q₀, arrived, first, split⟩ := h o' q' found
    refine ⟨q₀, arrived, first, ?_⟩
    rw [split, takenFrom_append_other (Ne.symm same)]

theorem Filling.tryPsi (h : Filling ts s₀ s) (pc : s.pc = .psi) : Filling ts s₀ (tryPsi s) := by
  have moved := h.moved
  have spent := h.spent
  have enough := h.enough
  rw [pc] at moved spent
  simp only [pending, List.append_nil, List.length_nil, Nat.add_zero] at moved spent
  rw [Model.tryPsi]
  split
  · rename_i more
    dsimp only
    cases stored : s.psibuf.waiting with
    | nil =>
        rw [cbufGet_of_nil stored]
        refine ⟨h.items, h.size, h.room, h.whole, h.node, h.nulls, h.clean, h.sources, h.length,
          h.laid, by simpa [pending] using moved, enough, by simpa [pending] using spent,
          h.retries, h.overruns, more, le_rfl, ?_⟩
        intro _
        -- the packets promised by the budget are in the inputs
        have positive : 0 < (s.inputs.map (fun r => r.buf.waiting.length)).sum := by
          rw [available, stored, List.length_nil] at enough
          omega
        obtain ⟨x, member, nonzero⟩ :
            ∃ x ∈ s.inputs.map (fun r => r.buf.waiting.length), x ≠ 0 := by
          by_contra none
          push Not at none
          rw [List.sum_eq_zero none] at positive
          exact lt_irrefl 0 positive
        obtain ⟨r, member', rfl⟩ := List.mem_map.mp member
        obtain ⟨i, inside, rfl⟩ := List.mem_iff_getElem.mp member'
        obtain ⟨j, before, there⟩ := exists_offset s.node inside
        refine ⟨j, before, s.inputs[i], ?_, ?_⟩
        · show s.inputs[(s.node + j) % s.inputs.length]? = _
          rw [there]
          exact List.getElem?_eq_getElem inside
        · exact List.length_pos_iff.mp (Nat.pos_of_ne_zero nonzero)
    | cons p rest =>
        rw [cbufGet_of_cons stored]
        refine ⟨h.items, h.size, h.room, h.whole, h.node, h.nulls, h.clean, ?_, h.length, h.laid,
          ?_, ?_, ?_, h.retries, h.overruns, more⟩
        · apply sources_removed h.sources (by rfl)
          · intro q' found
            obtain rfl := Option.some.inj found
            exact ⟨_, rfl, stored⟩
          · intro o' ne
            cases o' with
            | psi => exact absurd rfl ne
            | input i => rfl
        · simp [pending, moved]
        · simp only [available, stored, List.length_cons, List.length_append, List.length_nil]
            at enough ⊢
          omega
        · simp only [pending, List.length_append, List.length_cons, List.length_nil]
          omega
  · exact ⟨h.items, h.size, h.room, h.whole, h.node, h.nulls, h.clean, h.sources, h.length,
      h.laid, by simpa [pending] using moved, enough, by simpa [pending] using spent, h.retries,
      h.overruns, trivial⟩

theorem Filling.endScan (h : Filling ts s₀ s) {readCount : ℕ} (pc : s.pc = .scan 0 readCount) :
    Filling ts s₀ (endScan s readCount) := by
  have moved := h.moved
  have spent := h.spent
  have stands := h.stands
  rw [pc] at moved spent stands
  obtain ⟨more, -, unread⟩ := stands
  rw [Model.endScan]
  split
  · rename_i none
    obtain ⟨j, impossible, -⟩ := unread none
    omega
  · exact ⟨h.items, h.size, h.room, h.whole, h.node, h.nulls, h.clean, h.sources, h.length,
      h.laid, moved, h.enough, spent, h.retries, h.overruns, more⟩

theorem Filling.countSlot (h : Filling ts s₀ s) (pc : s.pc = .send none) :
    Filling ts s₀ (countSlot s) := by
  have moved := h.moved
  have spent := h.spent
  have enough := h.enough
  have more : s.dataPackets < s.budget.packets := by
    have stands := h.stands
    rw [pc] at stands
    exact stands
  rw [pc] at moved spent
  refine ⟨?_, h.size, h.room, h.whole, ?_, h.nulls, clean_countPackets ts 1 h.clean, ?_, h.length,
    h.laid.mono ?_, moved, ?_, ?_, h.retries, h.overruns, more⟩
  · simpa [Model.countSlot] using h.items
  · simpa [Model.countSlot] using h.node
  · intro o q found
    rw [source_countPackets 1 (s := s) (by rfl) (by rfl)] at found
    exact h.sources o q found
  · show _ ≤ s.dataPackets + 1 + s.nulls
    omega
  · simp only [available, Model.countSlot, waiting_countPackets]
    exact enough
  · show s.removed.length ≤ s.dataPackets + 1 + 0
    simp only [pending, List.length_nil] at spent
    omega

theorem Filling.copyPacket (h : Filling ts s₀ s) {p : Packet} (pc : s.pc = .send (some p)) :
    Filling ts s₀ (copyPacket s p) := by
  have moved := h.moved
  have spent := h.spent
  have enough := h.enough
  have more : s.dataPackets < s.budget.packets := by
    have stands := h.stands
    rw [pc] at stands
    exact stands
  rw [pc] at moved spent
  have nulls := mixNulls_le h.nulls s.dataPackets
  have grown := le_mixNulls s.budget s.nulls s.dataPackets
  have inside : s.dataPackets + mixNulls s.budget s.nulls s.dataPackets < s.maxPackets := by
    have room := h.room
    have whole := h.whole
    rw [Budget.nullPackets] at nulls
    omega
  rw [Model.copyPacket]
  rw [if_neg (by omega)]
  refine ⟨?_, h.size, h.room, h.whole, ?_, nulls, clean_countPackets ts 1 h.clean, ?_, ?_, ?_, ?_,
    ?_, ?_, h.retries, h.overruns, more⟩
  · simpa [Model.countSlot] using h.items
  · simpa [Model.countSlot] using h.node
  · intro o q found
    rw [source_countPackets 1 (s := s) (by rfl) (by rfl)] at found
    exact h.sources o q found
  · simpa [Model.countSlot] using h.length
  · have put := (h.laid.mono (show s.dataPackets + s.nulls ≤
      s.dataPackets + mixNulls s.budget s.nulls s.dataPackets by omega)).put p le_rfl
      (by rw [h.length]; exact inside)
    apply put.mono
    show _ ≤ s.dataPackets + 1 + mixNulls s.budget s.nulls s.dataPackets
    omega
  · simpa [Model.countSlot, pending] using moved
  · simp only [available, Model.countSlot, waiting_countPackets]
    exact enough
  · show s.removed.length ≤ s.dataPackets + 1 + 0
    simpa [pending] using spent

private theorem Filling.scan_quiet (h : Filling ts s₀ s) {left readCount readCount' i : ℕ}
    {r r' : Input}
    (pc : s.pc = .scan (left + 1) readCount) (place : i = s.node % s.inputs.length)
    (found : s.inputs[i]? = some r) (same : r'.buf = r.buf)
    (count : readCount' = 0 → readCount = 0 ∧ r.buf.waiting = []) :
    Filling ts s₀ { s with node := i + 1, inputs := s.inputs.set i r',
                           pc := .scan left readCount' } := by
  have moved := h.moved
  have spent := h.spent
  have stands := h.stands
  rw [pc] at moved spent stands
  obtain ⟨more, bound, unread⟩ := stands
  obtain ⟨inside, here⟩ := List.getElem?_eq_some_iff.mp found
  have lengths : (s.inputs.set i r').map (fun r => r.buf.waiting.length) =
      s.inputs.map (fun r => r.buf.waiting.length) := by
    have inside' : i < (s.inputs.map (fun r => r.buf.waiting.length)).length := by
      simpa using inside
    have entry : r.buf.waiting.length = (s.inputs.map (fun r => r.buf.waiting.length))[i] := by
      simp [here]
    rw [List.map_set, same, entry, List.set_getElem_self]
  refine ⟨?_, h.size, h.room, h.whole, ?_, h.nulls, ?_, ?_, h.length, h.laid, moved, ?_, spent,
    h.retries, h.overruns, more, ?_, ?_⟩
  · simpa using h.items
  · simpa using inside
  · intro x member
    rcases List.mem_or_eq_of_mem_set member with old | rfl
    · exact h.clean x old
    · rw [same]
      exact h.clean r (List.mem_of_getElem? found)
  · intro o q stored
    apply h.sources o q
    rw [← stored]
    cases o with
    | psi => rfl
    | input k =>
        simp only [source, List.getElem?_set]
        by_cases visited : i = k
        · subst visited
          simp [here, inside, same]
        · simp [visited]
  · simp only [available, lengths]
    exact h.enough
  · show left ≤ (s.inputs.set i r').length
    rw [List.length_set]
    omega
  · intro none
    obtain ⟨first, empty⟩ := count none
    obtain ⟨j, before, x, there, nonempty⟩ := unread first
    have later : j ≠ 0 := by
      rintro rfl
      rw [Nat.add_zero, ← place, found] at there
      obtain rfl := Option.some.inj there
      exact nonempty empty
    refine ⟨j - 1, by omega, x, ?_, nonempty⟩
    have position : (i + 1 + (j - 1)) % s.inputs.length = (s.node + j) % s.inputs.length := by
      rw [show i + 1 + (j - 1) = i + j by omega, place, Nat.mod_add_mod]
    rw [List.length_set, position, List.getElem?_set]
    by_cases same' : i = (s.node + j) % s.inputs.length
    · rw [← same', found] at there
      obtain rfl := Option.some.inj there
      exact absurd empty nonempty
    · rw [if_neg same']
      exact there

private theorem Filling.scan_data (h : Filling ts s₀ s) {left readCount i : ℕ} {r r' : Input}
    {p : Packet} {rest : List Packet} (pc : s.pc = .scan (left + 1) readCount)
    (found : s.inputs[i]? = some r) (stored : r.buf.waiting = p :: rest)
    (popped : r'.buf = (cbufGet r.buf).2) :
    Filling ts s₀ { s with node := i + 1, inputs := s.inputs.set i r', pc := .send (some p),
                           removed := s.removed ++ [(.input i, p)] } := by
  have moved := h.moved
  have spent := h.spent
  have enough := h.enough
  have stands := h.stands
  rw [pc] at moved spent stands
  simp only [pending, List.append_nil, List.length_nil, Nat.add_zero] at moved spent
  obtain ⟨more, -, -⟩ := stands
  obtain ⟨inside, here⟩ := List.getElem?_eq_some_iff.mp found
  rw [cbufGet_of_cons stored] at popped
  have waiting : r'.buf.waiting = rest := by rw [popped]
  refine ⟨?_, h.size, h.room, h.whole, ?_, h.nulls, ?_, ?_, h.length, h.laid, ?_, ?_, ?_,
    h.retries, h.overruns, more⟩
  · simpa using h.items
  · simpa using inside
  · intro x member
    rcases List.mem_or_eq_of_mem_set member with old | rfl
    · exact h.clean x old
    · rw [waiting]
      intro q later
      exact h.clean r (List.mem_of_getElem? found) q (by simp [stored, later])
  · apply sources_removed h.sources (by rfl)
    · intro q' now
      refine ⟨r.buf.toFifo, by simp [source, found], ?_⟩
      simp only [source, List.getElem?_set_self inside, Option.map_some, Option.some.injEq] at now
      rw [← now, stored, waiting]
    · intro o' ne
      cases o' with
      | psi => rfl
      | input k =>
          have other : i ≠ k := fun e => ne (e ▸ rfl)
          simp [source, other]
  · simp [pending, moved]
  · have sum := sum_set_pred (l := s.inputs.map (fun r => r.buf.waiting.length)) (i := i)
      (k := rest.length) (by simp [found, stored])
    rw [← waiting] at sum
    rw [← List.map_set (f := fun r : Input => r.buf.waiting.length)] at sum
    simp only [available, List.length_append, List.length_cons, List.length_nil] at enough ⊢
    omega
  · simp only [pending, List.length_append, List.length_cons, List.length_nil]
    omega

theorem Filling.scanInput (h : Filling ts s₀ s) (conf : Config) {left readCount : ℕ}
    (pc : s.pc = .scan (left + 1) readCount) :
    Filling ts s₀ (scanInput ts conf s left readCount) := by
  have bound : left + 1 ≤ s.inputs.length := by
    have stands := h.stands
    rw [pc] at stands
    exact stands.2.1
  have step := stepNode_eq (show 0 < s.inputs.length by omega) h.node
  have inside : s.node % s.inputs.length < s.inputs.length := Nat.mod_lt _ (by omega)
  have found := List.getElem?_eq_getElem inside
  have clean := h.clean _ (List.getElem_mem inside)
  generalize s.inputs[s.node % s.inputs.length] = r at found clean
  rw [Model.scanInput]
  simp only [step, Nat.add_sub_cancel, found]
  rcases visitInput_cases ts conf s.maxPackets clean with
    ⟨empty, skipped | none, same⟩ | ⟨held, same⟩ | ⟨p, rest, stored, data, popped⟩
  · rw [skipped]
    exact h.scan_quiet pc rfl found same (fun zero => ⟨zero, empty⟩)
  · rw [none]
    exact h.scan_quiet pc rfl found same (fun zero => absurd zero (Nat.succ_ne_zero _))
  · rw [held]
    exact h.scan_quiet pc rfl found same (fun zero => absurd zero (Nat.succ_ne_zero _))
  · rw [data]
    exact h.scan_data pc found stored popped

theorem getElem?_of_forall₂ {l l' : List Input} (supplied : List.Forall₂ (Supplied ts) l l')
    {i : ℕ} {r' : Input} (found : l'[i]? = some r') :
    ∃ r, l[i]? = some r ∧ Supplied ts r r' := by
  obtain ⟨inside, rfl⟩ := List.getElem?_eq_some_iff.mp found
  have inside' : i < l.length := by
    rw [supplied.length_eq]
    exact inside
  exact ⟨l[i], List.getElem?_eq_getElem inside', supplied.get inside' inside⟩

private theorem sum_waiting_le {l l' : List Input} (supplied : List.Forall₂ (Supplied ts) l l') :
    (l.map (fun r => r.buf.waiting.length)).sum ≤
      (l'.map (fun r => r.buf.waiting.length)).sum := by
  induction supplied with
  | nil => exact le_rfl
  | cons first _ ih =>
      obtain ⟨data, buf, -⟩ := first.buf
      simp only [List.map_cons, List.sum_cons, buf, Fifo.waiting_push, List.length_append]
      omega

theorem Filling.arrive (h : Filling ts s₀ s) {s' : Mix} (arrives : Arrives ts s s') :
    Filling ts s₀ s' := by
  obtain ⟨⟨data, psibuf⟩, supplied, rest⟩ := arrives
  generalize s'.psibuf = b at psibuf rest
  generalize s'.inputs = l at supplied rest
  subst rest
  have items := supplied.length_eq
  refine ⟨items.symm.trans h.items, h.size, h.room, h.whole, items ▸ h.node, h.nulls, ?_, ?_,
    h.length, h.laid, h.moved, ?_, h.spent, h.retries, h.overruns, ?_⟩
  · intro r' member
    obtain ⟨i, inside, rfl⟩ := List.mem_iff_getElem.mp member
    obtain ⟨r, before, more⟩ := getElem?_of_forall₂ supplied (List.getElem?_eq_getElem inside)
    obtain ⟨new, buf, clean⟩ := more.buf
    rw [buf, Fifo.waiting_push]
    intro p stored
    rcases List.mem_append.mp stored with old | fresh
    · exact h.clean r (List.mem_of_getElem? before) p old
    · exact clean p fresh
  · intro o q' now
    cases o with
    | psi =>
        obtain rfl := Option.some.inj now
        obtain ⟨q₀, arrived, first, split⟩ := h.sources .psi s.psibuf.toFifo rfl
        refine ⟨q₀, arrived ++ data, first, ?_⟩
        rw [psibuf, Fifo.waiting_push, ← List.append_assoc, split, List.append_assoc]
    | input i =>
        obtain ⟨r', found, rfl⟩ := Option.map_eq_some_iff.mp now
        obtain ⟨r, before, more⟩ := getElem?_of_forall₂ supplied found
        obtain ⟨new, buf, -⟩ := more.buf
        obtain ⟨q₀, arrived, first, split⟩ :=
          h.sources (.input i) r.buf.toFifo (by simp [source, before])
        refine ⟨q₀, arrived ++ new, first, ?_⟩
        rw [buf, Fifo.waiting_push, ← List.append_assoc, split, List.append_assoc]
  · have enough := h.enough
    have sum := sum_waiting_le supplied
    simp only [available, psibuf, Fifo.waiting_push, List.length_append] at enough ⊢
    omega
  · have stands := h.stands
    cases pc : s.pc with
    | scan left readCount =>
        rw [pc] at stands
        obtain ⟨more, bound, unread⟩ := stands
        refine ⟨more, items ▸ bound, ?_⟩
        intro none
        obtain ⟨j, before, r, there, nonempty⟩ := unread none
        obtain ⟨inside, rfl⟩ := List.getElem?_eq_some_iff.mp there
        have inside' : (s.node + j) % s.inputs.length < l.length := items ▸ inside
        obtain ⟨new, buf, -⟩ := (supplied.get inside inside').buf
        refine ⟨j, before, l[(s.node + j) % s.inputs.length], ?_, ?_⟩
        · show l[(s.node + j) % l.length]? = _
          rw [← items]
          exact List.getElem?_eq_getElem inside'
        · have longer : l[(s.node + j) % s.inputs.length].buf.waiting ≠ [] := by
            rw [show l[(s.node + j) % s.inputs.length] = l.get ⟨_, inside'⟩ from rfl, buf,
              Fifo.waiting_push]
            simp only [List.get_eq_getElem, ne_eq, List.append_eq_nil_iff, not_and]
            exact fun nil => absurd nil nonempty
          exact longer
    | waiting =>
        rw [pc] at stands
        exact stands.elim
    | psi =>
        rw [pc] at stands
        exact stands
    | send data =>
        rw [pc] at stands
        exact stands
    | full => trivial

theorem Filling.mixTurn (h : Filling ts s₀ s) (conf : Config) (unfinished : s.pc ≠ .full) :
    Filling ts s₀ (mixTurn ts conf s) := by
  rw [Model.mixTurn]
  cases pc : s.pc with
  | waiting =>
      have stands := h.stands
      rw [pc] at stands
      exact stands.elim
  | psi => exact h.tryPsi pc
  | scan left readCount =>
      cases left with
      | zero => exact h.endScan pc
      | succ left => exact h.scanInput conf pc
  | send data =>
      cases data with
      | none => exact h.countSlot pc
      | some p => exact h.copyPacket pc
  | full => exact absurd pc unfinished

end steps

theorem scanInput_place (ts : TsFuncs) (conf : Config) (s : Mix) (left readCount : ℕ) :
    (scanInput ts conf s left readCount).maxPackets = s.maxPackets ∧
      (scanInput ts conf s left readCount).dataPackets = s.dataPackets ∧
      (scanInput ts conf s left readCount).nulls = s.nulls ∧
      (scanInput ts conf s left readCount).pc ≠ .waiting ∧
      (scanInput ts conf s left readCount).pc ≠ .full := by
  obtain ⟨inputs, pc, removed, after, -, ⟨count, rfl⟩ | ⟨p, rfl⟩⟩ :=
    scanInput_frame ts conf s left readCount
  · rw [after]
    simp
  · rw [after]
    simp

theorem scanInput_budget (ts : TsFuncs) (conf : Config) (s : Mix) (left readCount : ℕ) :
    (scanInput ts conf s left readCount).budget = s.budget ∧
      (scanInput ts conf s left readCount).copied = s.copied := by
  obtain ⟨inputs, pc, removed, after, -⟩ := scanInput_frame ts conf s left readCount
  rw [after]
  exact ⟨rfl, rfl⟩

theorem scanInput_length (ts : TsFuncs) (conf : Config) (s : Mix) (left readCount : ℕ) :
    (scanInput ts conf s left readCount).inputs.length = s.inputs.length := by
  obtain ⟨inputs, pc, removed, after, rfl | ⟨i, r, -, rfl⟩, -⟩ :=
    scanInput_frame ts conf s left readCount
  · rw [after]
  · rw [after]
    exact List.length_set

/-- An upper bound of the steps that are left. -/
def stepsLeft (s : Mix) : ℕ :=
  match s.pc with
  | .waiting | .full => 0
  | .psi => (s.budget.packets - s.dataPackets) * (s.inputs.length + 3) + 1
  | .scan left _ => (s.budget.packets - s.dataPackets - 1) * (s.inputs.length + 3) + left + 3
  | .send _ => (s.budget.packets - s.dataPackets - 1) * (s.inputs.length + 3) + 2

private theorem stepsLeft_scanInput (conf : Config) (s : Mix) (left readCount : ℕ) :
    stepsLeft (scanInput ts conf s left readCount) ≤
      (s.budget.packets - s.dataPackets - 1) * (s.inputs.length + 3) + left + 3 := by
  have length := scanInput_length ts conf s left readCount
  obtain ⟨inputs, pc, removed, after, -, ⟨count, rfl⟩ | ⟨p, rfl⟩⟩ :=
    scanInput_frame ts conf s left readCount
  · rw [after] at length ⊢
    simp only [stepsLeft, length]
    exact le_rfl
  · rw [after] at length ⊢
    simp only [stepsLeft, length]
    omega

private theorem stepsLeft_countSlot (s : Mix) :
    stepsLeft (countSlot s) =
      (s.budget.packets - s.dataPackets - 1) * (s.inputs.length + 3) + 1 := by
  simp only [countSlot, stepsLeft, List.length_map, Nat.sub_sub]

theorem Filling.stepsLeft_lt {ts : TsFuncs} {s₀ s : Mix} (h : Filling ts s₀ s) (conf : Config)
    (unfinished : s.pc ≠ .full) : stepsLeft (Model.mixTurn ts conf s) < stepsLeft s := by
  have stands := h.stands
  have split : s.dataPackets < s.budget.packets →
      (s.budget.packets - s.dataPackets) * (s.inputs.length + 3) =
        (s.budget.packets - s.dataPackets - 1) * (s.inputs.length + 3) +
          (s.inputs.length + 3) := by
    intro more
    obtain ⟨k, eq⟩ : ∃ k, s.budget.packets - s.dataPackets = k + 1 :=
      ⟨s.budget.packets - s.dataPackets - 1, by omega⟩
    rw [eq, Nat.add_sub_cancel, Nat.succ_mul]
  have step := mixTurn_step ts conf s
  generalize Model.mixTurn ts conf s = after at step ⊢
  cases step with
  | start pc =>
      rw [pc] at stands
      exact stands.elim
  | takePsi pc more =>
      rw [show stepsLeft s = (s.budget.packets - s.dataPackets) * (s.inputs.length + 3) + 1 by
        simp [stepsLeft, pc], split more]
      simp only [stepsLeft]
      omega
  | toInputs pc more =>
      rw [show stepsLeft s = (s.budget.packets - s.dataPackets) * (s.inputs.length + 3) + 1 by
        simp [stepsLeft, pc], split more]
      simp only [stepsLeft]
      omega
  | done pc => simp [stepsLeft, pc]
  | @visit left readCount pc =>
      have bound := stepsLeft_scanInput ts conf s left readCount
      have whole : stepsLeft s = (s.budget.packets - s.dataPackets - 1) * (s.inputs.length + 3) +
          (left + 1) + 3 := by
        simp [stepsLeft, pc]
      omega
  | again pc =>
      rw [pc] at stands
      obtain ⟨-, -, unread⟩ := stands
      obtain ⟨j, impossible, -⟩ := unread rfl
      omega
  | nothing pc => simp [stepsLeft, pc]
  | skip pc =>
      rw [stepsLeft_countSlot]
      simp [stepsLeft, pc]
  | overrun pc => simp [stepsLeft, pc]
  | place pc =>
      rw [stepsLeft_countSlot]
      simp [stepsLeft, pc]
  | wait pc => exact absurd pc unfinished

private theorem stepsLeft_arrive {s s' : Mix} (arrives : Arrives ts s s') :
    stepsLeft s' = stepsLeft s := by
  obtain ⟨-, supplied, rest⟩ := arrives
  have items := supplied.length_eq
  rw [rest]
  simp only [stepsLeft, items]

section run

variable {ts} {conf : Config} {s t : Mix} {n : ℕ}

theorem filling_run (node : s.node ≤ s.inputs.length)
    (clean : ∀ r ∈ s.inputs, ∀ p ∈ r.buf.waiting, ts.getPid p ≠ nullPid)
    (run : FillRun ts conf s n t) :
    Filling ts s t ∧ n + stepsLeft t ≤ stepsLeft (startFill s) := by
  induction run with
  | start => exact ⟨filling_startFill node clean, by omega⟩
  | turn _ unfinished ih =>
      have less := ih.1.stepsLeft_lt conf unfinished
      exact ⟨ih.1.mixTurn conf unfinished, by omega⟩
  | arrive _ arrives ih =>
      have same := stepsLeft_arrive ts arrives
      exact ⟨ih.1.arrive arrives, by omega⟩

/-- What a completed fill has done: what was removed from the buffers has been copied, in order,
to increasing slots; of every buffer the oldest packets were taken; every other slot is as
`obuf_reset` left it. -/
structure Transferred (s t : Mix) : Prop where
  copied : t.removed.map Prod.snd = t.copied.map Prod.snd
  increasing : (t.copied.map Prod.fst).Pairwise (· < ·)
  inside : ∀ x ∈ t.copied, x.1 < s.maxPackets
  length : t.buf.length = s.maxPackets
  placed : ∀ x ∈ t.copied, t.buf[x.1]? = some x.2
  untouched : ∀ k, k < s.maxPackets → (∀ x ∈ t.copied, x.1 ≠ k) → t.buf[k]? = some nullPacket
  prefixes : ∀ o q, source t o = some q → ∃ q₀ arrived, source s o = some q₀ ∧
    q₀.waiting ++ arrived = takenFrom o t.removed ++ q.waiting

/-- Every fill comes to its end within a bounded number of steps, without a fake loop and without
the branch "Can't happen", and has then transferred exactly what it removed. -/
theorem fill_transfers (node : s.node ≤ s.inputs.length)
    (clean : ∀ r ∈ s.inputs, ∀ p ∈ r.buf.waiting, ts.getPid p ≠ nullPid)
    (run : FillRun ts conf s n t) :
    n ≤ stepsLeft (startFill s) ∧ t.retries = s.retries ∧ t.overruns = s.overruns ∧
      (t.pc = .full → Transferred s t) := by
  obtain ⟨filling, bound⟩ := filling_run node clean run
  refine ⟨by omega, filling.retries, filling.overruns, ?_⟩
  intro full
  have moved := filling.moved
  rw [full] at moved
  have inside : ∀ x ∈ t.copied, x.1 < s.maxPackets := by
    intro x member
    by_contra outside
    have placed := filling.laid.placed x member
    rw [List.getElem?_eq_none (by rw [filling.length, filling.size]; omega)] at placed
    cases placed
  have length : t.buf.length = s.maxPackets := filling.length.trans filling.size
  exact
    { copied := by simpa [pending] using moved
      increasing := filling.laid.increasing
      inside
      length
      placed := filling.laid.placed
      untouched := fun k below free => filling.laid.untouched k (length.symm ▸ below) free
      prefixes := filling.sources }

theorem fillRun_iterate (n : ℕ)
    (unfinished : ∀ k < n, ((mixTurn ts conf)^[k] (startFill s)).pc ≠ .full) :
    FillRun ts conf s n ((mixTurn ts conf)^[n] (startFill s)) := by
  induction n with
  | zero => exact .start
  | succ n ih =>
      rw [Function.iterate_succ_apply']
      exact .turn (ih fun k before => unfinished k (by omega)) (unfinished n (by omega))

end run

/-- A mixer with one PSI packet, one input with one packet, and room for three. -/
def sampleMix : Mix where
  pc := .waiting
  psibuf := (Cbuf.init 65800).append [payloadPacket 0x10]
  inputs := [{ inputNew sectionLibs "a" (sampleChannel 1 0) false with
    buf := (Cbuf.init 65800).append [payloadPacket 0x21] }]
  node := 1
  maxPackets := 3
  budget := budget 3 0
  nulls := 0
  dataPackets := 0
  buf := []
  removed := []
  copied := []
  retries := 0
  overruns := 0

theorem fill_transfers_two_packets :
    let t := (mixTurn headerFuncs (sampleConfig 3))^[6] (startFill sampleMix)
    6 ≤ stepsLeft (startFill sampleMix) ∧ t.retries = 0 ∧ t.overruns = 0 ∧
      (t.pc = .full → Transferred sampleMix t) := by
  have clean : ∀ r ∈ sampleMix.inputs, ∀ p ∈ r.buf.waiting, headerFuncs.getPid p ≠ nullPid := by
    intro r member p stored
    obtain rfl := List.mem_singleton.mp member
    obtain rfl := List.mem_singleton.mp stored
    decide +kernel
  exact fill_transfers le_rfl clean (fillRun_iterate 6 (by decide +kernel))

/-- In this run the buffer is full after six steps, with both packets copied. -/
example : ((mixTurn headerFuncs (sampleConfig 3))^[6] (startFill sampleMix)).pc = .full ∧
    ((mixTurn headerFuncs (sampleConfig 3))^[6] (startFill sampleMix)).copied.map Prod.fst =
      [0, 2] := by
  decide +kernel

end Mptsd.Mixer.Fill
