/- Unit: Mptsd/Mixer/Merge
   source: src/output_mix.c (output_handle_mix)
   digest: Over any number of output buffers, the packets in them are those taken from the PSI
   buffer and from the inputs, in the order they were taken. -/

import Mptsd.Mixer.Observer

set_option autoImplicit false
set_option relaxedAutoImplicit false

namespace Mptsd.Mixer.Merge

open Mptsd.TsPacket (Packet TsFuncs nullPacket)
open Mptsd.Conf (Config)
open Mptsd.Lib.Queue (Fifo)
open Mptsd.PsiTables (cbufGet_of_nil cbufGet_of_cons)
open Mptsd.Intake.Model (Input)
open Mptsd.Mixer.Model
open Mptsd.Mixer.Fill
open Mptsd.Mixer.Observer (Sound)

/-- The output buffer that is being filled. -/
def current (s : Mix) : List Packet := if s.pc = .waiting then [] else s.buf

/-- `moved` lists the packets taken from the buffers so far, with their origins, and `done` holds
the packets of the output buffers filled before. -/
structure Merged (done : List Packet) (s : Mix) (moved : List (Origin × Packet)) : Prop where
  taken : ∀ o q, source s o = some q → takenFrom o moved = q.taken
  known : ∀ x ∈ moved, ∃ q, source s x.1 = some q
  stream : ∀ keep : Packet → Bool, keep nullPacket = false →
    (done ++ current s ++ pending s.pc).filter keep = (moved.map Prod.snd).filter keep

variable {ts : TsFuncs} {conf : Config} {done : List Packet} {s s' : Mix}
  {moved : List (Origin × Packet)}

theorem merged_nil (waiting : s.pc = .waiting)
    (fresh : ∀ o q, source s o = some q → q.taken = []) : Merged [] s [] where
  taken o q found := (fresh o q found).symm
  known x member := nomatch member
  stream keep _ := by simp [current, waiting, pending]

theorem Merged.congr (h : Merged done s moved)
    (sources : ∀ o, (source s' o).map Fifo.taken = (source s o).map Fifo.taken)
    (same : ∀ keep : Packet → Bool, keep nullPacket = false →
      (current s' ++ pending s'.pc).filter keep = (current s ++ pending s.pc).filter keep) :
    Merged done s' moved where
  taken o q found := by
    have before := sources o
    rw [found] at before
    obtain ⟨q₀, found₀, taken⟩ := Option.map_eq_some_iff.mp before.symm
    rw [h.taken o q₀ found₀, taken]
  known x member := by
    obtain ⟨q, found⟩ := h.known x member
    have after := sources x.1
    rw [found] at after
    obtain ⟨q', found', -⟩ := Option.map_eq_some_iff.mp after
    exact ⟨q', found'⟩
  stream keep hidden := by
    have before := h.stream keep hidden
    rw [List.append_assoc, List.filter_append] at before ⊢
    rw [same keep hidden, before]

theorem Merged.take (h : Merged done s moved) {o : Origin} {p : Packet} {q q' : Fifo Packet}
    (found : source s o = some q) (found' : source s' o = some q')
    (taken : q'.taken = q.taken ++ [p]) (others : ∀ o', o' ≠ o → source s' o' = source s o')
    (still : current s' = current s) (free : pending s.pc = []) (held : pending s'.pc = [p]) :
    Merged done s' (moved ++ [(o, p)]) where
  taken o₁ q₁ found₁ := by
    by_cases same : o₁ = o
    · subst same
      obtain rfl := Option.some.inj (found'.symm.trans found₁)
      rw [takenFrom_append_same, h.taken o₁ q found, taken]
    · rw [takenFrom_append_other (Ne.symm same)]
      exact h.taken o₁ q₁ ((others o₁ same).symm.trans found₁)
  known x member := by
    rcases List.mem_append.mp member with old | new
    · by_cases same : x.1 = o
      · exact ⟨q', same ▸ found'⟩
      · rw [others x.1 same]
        exact h.known x old
    · obtain rfl := List.mem_singleton.mp new
      exact ⟨q', found'⟩
  stream keep hidden := by
    have before := h.stream keep hidden
    rw [free, List.append_nil] at before
    rw [still, held, List.filter_append, before, List.map_append, List.filter_append]
    rfl

theorem Merged.startFill (h : Merged done s moved) (pc : s.pc = .waiting) :
    Merged done (startFill s) moved := by
  have blank : ∀ keep : Packet → Bool, keep nullPacket = false →
      (List.replicate s.maxPackets nullPacket).filter keep = [] := by
    intro keep hidden
    simp [hidden]
  rw [Model.startFill]
  dsimp only
  split
  · apply h.congr
    · intro o
      rw [source_countPackets s.maxPackets (s := s) (by rfl) (by rfl)]
    · intro keep hidden
      simp [current, pc, pending, hidden]
  · apply h.congr
    · intro o
      rfl
    · intro keep hidden
      simp [current, pc, pending, hidden]

theorem Merged.tryPsi (h : Merged done s moved) (pc : s.pc = .psi) :
    ∃ more, Merged done (tryPsi s) (moved ++ more) := by
  rw [Model.tryPsi]
  split
  · dsimp only
    cases stored : s.psibuf.waiting with
    | nil =>
        rw [cbufGet_of_nil stored]
        refine ⟨[], ?_⟩
        rw [List.append_nil]
        apply h.congr
        · intro o
          rfl
        · intro keep _
          simp [current, pc, pending]
    | cons p rest =>
        rw [cbufGet_of_cons stored]
        refine ⟨[(.psi, p)], h.take (o := .psi) rfl rfl rfl ?_ ?_ ?_ rfl⟩
        · intro o' other
          cases o' with
          | psi => exact absurd rfl other
          | input i => rfl
        · simp [current, pc]
        · rw [pc]
          rfl
  · refine ⟨[], ?_⟩
    rw [List.append_nil]
    apply h.congr
    · intro o
      rfl
    · intro keep _
      simp [current, pc, pending]

private theorem Merged.visit_quiet (h : Merged done s moved) {i : ℕ} {r r' : Input}
    (found : s.inputs[i]? = some r) (buf : r'.buf = r.buf) (inputs : s'.inputs = s.inputs.set i r')
    (psibuf : s'.psibuf = s.psibuf)
    (same : current s' ++ pending s'.pc = current s ++ pending s.pc) : Merged done s' moved := by
  apply h.congr
  · intro o
    cases o with
    | psi => simp only [source, psibuf]
    | input j =>
        simp only [source, inputs]
        by_cases own : i = j
        · subst own
          have inside : i < s.inputs.length := (List.getElem?_eq_some_iff.mp found).1
          rw [List.getElem?_set_self inside, found]
          simp [buf]
        · rw [List.getElem?_set_ne own]
  · intro keep _
    rw [same]

theorem Merged.scanInput (h : Merged done s moved) (sound : Sound ts conf s)
    {left readCount : ℕ} (pc : s.pc = .scan (left + 1) readCount) :
    ∃ more, Merged done (scanInput ts conf s left readCount) (moved ++ more) := by
  have quiet : ∃ more, Merged done s (moved ++ more) := ⟨[], by rwa [List.append_nil]⟩
  rw [Model.scanInput]
  dsimp only
  cases found : s.inputs[stepNode s.inputs.length s.node - 1]? with
  | none =>
      refine ⟨[], ?_⟩
      rw [List.append_nil]
      apply h.congr
      · intro o
        rfl
      · intro keep _
        simp [current, pc, pending]
  | some r =>
      have clean := sound.clean r (List.mem_of_getElem? found)
      dsimp only
      rcases visitInput_cases ts conf s.maxPackets clean with
        ⟨-, nothing, buf⟩ | ⟨held, buf⟩ | ⟨p, rest, stored, data, buf⟩
      · refine ⟨[], ?_⟩
        rw [List.append_nil]
        rcases nothing with skipped | empty
        · rw [skipped]
          exact h.visit_quiet found buf rfl rfl (by simp [current, pc, pending])
        · rw [empty]
          exact h.visit_quiet found buf rfl rfl (by simp [current, pc, pending])
      · refine ⟨[], ?_⟩
        rw [List.append_nil, held]
        exact h.visit_quiet found buf rfl rfl (by simp [current, pc, pending])
      · rw [data]
        rw [cbufGet_of_cons stored] at buf
        have inside := (List.getElem?_eq_some_iff.mp found).1
        refine ⟨[(.input (stepNode s.inputs.length s.node - 1), p)],
          @Merged.take _ _ _ _ h _ _ r.buf.toFifo ⟨r.buf.taken ++ [p], rest⟩ ?_ ?_ rfl ?_ ?_ ?_ rfl⟩
        · simp [source, found]
        · simp only [source]
          rw [List.getElem?_set_self inside]
          simp [buf]
        · intro o' other
          cases o' with
          | psi => rfl
          | input j =>
              simp only [source]
              rw [List.getElem?_set_ne]
              rintro rfl
              exact other rfl
        · simp [current, pc]
        · rw [pc]
          rfl

theorem Merged.countSlot (h : Merged done s moved) (pc : s.pc = .send none) :
    Merged done (countSlot s) moved := by
  apply h.congr
  · intro o
    rw [source_countPackets 1 (s := s) (by rfl) (by rfl)]
  · intro keep _
    simp [current, pc, pending, Model.countSlot]

theorem Merged.copyPacket (h : Merged done s moved) {s₀ : Mix} (filling : Filling ts s₀ s)
    {p : Packet} (pc : s.pc = .send (some p)) : Merged done (copyPacket s p) moved := by
  have copied := (filling.copyPacket pc).laid
  have room := filling.room
  have stands := filling.stands
  rw [pc] at stands
  have nulls := mixNulls_le filling.nulls s.dataPackets
  rw [Budget.nullPackets, filling.whole] at nulls
  have inside : ¬ s.dataPackets + mixNulls s.budget s.nulls s.dataPackets ≥ s.maxPackets := by
    simp only [Stands] at stands
    omega
  rw [Model.copyPacket] at copied ⊢
  rw [if_neg inside] at copied ⊢
  apply h.congr
  · intro o
    rw [source_countPackets 1 (s := s) (by rfl) (by rfl)]
  · intro keep hidden
    have after := copied.kept keep hidden
    have before := filling.laid.kept keep hidden
    simp only [Model.countSlot, List.map_append, List.filter_append] at after
    simp [current, pc, pending, Model.countSlot, after, before, List.filter_cons]

theorem Merged.mixTurn (h : Merged done s moved) (sound : Sound ts conf s) (pc : s.pc ≠ .full) :
    ∃ more, Merged done (mixTurn ts conf s) (moved ++ more) := by
  have quiet : ∀ {s' : Mix}, Merged done s' moved → ∃ more, Merged done s' (moved ++ more) :=
    fun same => ⟨[], by rwa [List.append_nil]⟩
  rw [Model.mixTurn]
  cases at_pc : s.pc with
  | waiting => exact quiet (h.startFill at_pc)
  | psi => exact h.tryPsi at_pc
  | scan left readCount =>
      cases left with
      | succ left => exact h.scanInput sound at_pc
      | zero =>
          apply quiet
          show Merged done (endScan s readCount) moved
          rw [endScan]
          split
          · apply h.congr
            · intro o
              rfl
            · intro keep _
              simp [current, at_pc, pending]
          · apply h.congr
            · intro o
              rfl
            · intro keep _
              simp [current, at_pc, pending]
  | send data =>
      cases data with
      | none => exact quiet (h.countSlot at_pc)
      | some p =>
          obtain ⟨s₀, filling⟩ := sound.filling (by simp [at_pc])
          exact quiet (h.copyPacket filling at_pc)
  | full => exact absurd at_pc pc

theorem Merged.mixTurn_full (h : Merged done s moved) (pc : s.pc = .full) :
    Merged (done ++ s.buf) (Model.mixTurn ts conf s) moved := by
  have stream := h.stream
  rw [Model.mixTurn]
  rw [pc] at stream ⊢
  refine ⟨h.taken, h.known, ?_⟩
  intro keep hidden
  simpa [current, pc, pending] using stream keep hidden

theorem Merged.arrive (h : Merged done s moved) (arrives : Arrives ts s s') :
    Merged done s' moved := by
  have pc : s'.pc = s.pc := by rw [arrives.rest]
  have buf : s'.buf = s.buf := by rw [arrives.rest]
  apply h.congr
  · intro o
    cases o with
    | psi =>
        obtain ⟨data, pushed⟩ := arrives.psibuf
        simp [source, pushed]
    | input i =>
        simp only [source, Option.map_map]
        cases before : s.inputs[i]? with
        | none =>
            have outside := List.getElem?_eq_none_iff.mp before
            rw [List.getElem?_eq_none (arrives.inputs.length_eq ▸ outside)]
        | some r =>
            have inside := (List.getElem?_eq_some_iff.mp before).1
            have inside' : i < s'.inputs.length := arrives.inputs.length_eq ▸ inside
            obtain ⟨r₀, found, supplied⟩ :=
              getElem?_of_forall₂ arrives.inputs (List.getElem?_eq_getElem inside')
            obtain rfl := Option.some.inj (before.symm.trans found)
            obtain ⟨data, pushed, -⟩ := supplied.buf
            rw [List.getElem?_eq_getElem inside']
            simp [pushed]
  · intro keep _
    simp [current, pc, buf]

theorem Merged.filter_of_origin (h : Merged done s moved) {o : Origin} {q : Fifo Packet}
    (keep : Packet → Bool) (found : source s o = some q) (hidden : keep nullPacket = false)
    (own : ∀ o' q', o' ≠ o → source s o' = some q' → ∀ p ∈ q'.taken, keep p = false) :
    (done ++ current s ++ pending s.pc).filter keep = q.taken.filter keep := by
  rw [h.stream keep hidden, ← h.taken o q found, takenFrom, List.filter_map, List.filter_map,
    List.filter_filter]
  congr 1
  apply List.filter_congr
  intro x member
  by_cases same : x.1 = o
  · simp [same]
  · obtain ⟨q', found'⟩ := h.known x member
    have stored : x.2 ∈ q'.taken := by
      rw [← h.taken x.1 q' found']
      exact List.mem_map.mpr ⟨x, List.mem_filter.mpr ⟨member, by simp⟩, rfl⟩
    simp [own x.1 q' same found' x.2 stored, same]

theorem Merged.mem_source (h : Merged done s moved) {p : Packet}
    (member : p ∈ done ++ current s ++ pending s.pc) :
    p = nullPacket ∨ ∃ o q, source s o = some q ∧ p ∈ q.taken := by
  by_cases stuffing : p = nullPacket
  · exact Or.inl stuffing
  · right
    have kept : p ∈ (moved.map Prod.snd).filter (fun q => q ≠ nullPacket) := by
      rw [← h.stream (fun q => q ≠ nullPacket) (by simp)]
      exact List.mem_filter.mpr ⟨member, by simpa using stuffing⟩
    obtain ⟨x, moved_x, rfl⟩ := List.mem_map.mp (List.mem_of_mem_filter kept)
    obtain ⟨q, found⟩ := h.known x moved_x
    refine ⟨x.1, q, found, ?_⟩
    rw [← h.taken x.1 q found]
    exact List.mem_map.mpr ⟨x, List.mem_filter.mpr ⟨moved_x, by simp⟩, rfl⟩

end Mptsd.Mixer.Merge
