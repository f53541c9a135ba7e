/- Unit: Mptsd/Intake/Announce
   source: src/input.c (input_rewrite_pat, input_rewrite_pmt), src/pidref.c
   digest: Which PIDs a freshly reset stream hands out for a PAT and a PMT, when they stay inside
   the window of the channel, and when packets get the PIDs the PMT announces. -/

import Mptsd.Intake.Rewrite
import Mptsd.Sections

set_option autoImplicit false
set_option relaxedAutoImplicit false

namespace Mptsd.Intake.Announce

open Mptsd.TsPacket (TsFuncs nullPid nullPacket)
open Mptsd.Channels (Channel Made window mem_window window_disjoint sampleChannel
  sampleChannel_made)
open Mptsd.Lib.Counter (cyclicRun cyclicRun_add cyclicRun_mod length_cyclicRun)
open Mptsd.PidTable
open Mptsd.PsiTables
open Mptsd.Intake.Model
open Mptsd.Intake.Rewrite
open Mptsd.Sections (sectionLibs samplePat samplePmt)

variable (lib : Libs)

/-- A reset stream on which the PAT is completed and rewritten. -/
def announcePat (r : Input) (P : TsPat) : Input :=
  let r := inputStreamReset lib r
  inputRewritePat lib { r with stream := (inputProcessPat { r.stream with pat := P }).2 }

/-- The same stream once the PMT is completed and rewritten too. -/
def announce (r : Input) (P : TsPat) (M : TsPmt) : Input :=
  let r := announcePat lib r P
  inputRewritePmt lib { r with stream := { r.stream with pmt := M } }

/-- Everything that is replaced, in the order of the assignments. -/
def orgs (P : TsPat) (M : TsPmt) : List ℕ := patOrgs P.programs ++ pmtOrgs M

/-- What the two tables and the PID table look like afterwards. -/
structure Announced (P : TsPat) (M : TsPmt) (base : ℕ) (s : InputStream) (P' : TsPat) (M' : TsPmt) :
    Prop where
  pat : s.patRewritten = some P'
  pmt : s.pmtRewritten = some M'
  pidref : s.pidref = (assignPids (pidrefInit 64 base) (orgs P M)).2
  patPairs : patPairs P.programs P'.programs =
    (patOrgs P.programs).zip (cyclicRun (2 ^ 16) base (patOrgs P.programs).length)
  pmtPairs : ∀ x, x ∈ pmtPairs M M' ↔ x ∈ (pmtOrgs M).zip
    (cyclicRun (2 ^ 16) (base + (patOrgs P.programs).length) (pmtOrgs M).length)
  streams : M'.streams.length = M.streams.length
  header : M'.headerPid = pidrefGetNewPid
    (assignPids (pidrefInit 64 base) (patOrgs P.programs)).2 s.pmtPid

variable {r : Input} {P : TsPat} {M : TsPmt}

theorem uint16_lt (x : ℤ) : uint16 x < 2 ^ 16 := by
  rw [uint16]
  omega

theorem uint16_basePid {c : Channel} (made : Made c) : uint16 c.basePid = 32 * c.index := by
  have := made.basePid_eq
  have := made.index_lt
  rw [uint16]
  omega

private theorem pidref_announcePat (pat : P.initialized = true) :
    (announcePat lib r P).stream.pidref =
      (assignPids (pidrefInit 64 (uint16 r.channel.basePid)) (patOrgs P.programs)).2 := by
  rw [announcePat]
  rw [pidref_inputRewritePat (by simpa using pat)]
  simp [inputStreamReset]

private theorem patRewritten_announcePat (pat : P.initialized = true) :
    ∃ P', (announcePat lib r P).stream.patRewritten = some P' ∧
      patPairs P.programs P'.programs = (patOrgs P.programs).zip
        (assignPids (pidrefInit 64 (uint16 r.channel.basePid)) (patOrgs P.programs)).1 := by
  refine ⟨_, patRewritten_inputRewritePat (by simpa using pat), ?_⟩
  rw [lib.pat_regenerate]
  simp [patPairs_rewritePrograms, inputStreamReset]

private theorem pidref_announce (pat : P.initialized = true) (pmt : M.initialized = true) :
    (announce lib r P M).stream.pidref =
      (assignPids (pidrefInit 64 (uint16 r.channel.basePid)) (orgs P M)).2 := by
  rw [announce]
  rw [pidref_inputRewritePmt pmt, orgs, assignPids_append]
  exact congrArg (fun ref => (assignPids ref (pmtOrgs M)).2) (pidref_announcePat lib pat)

private theorem pmtRewritten_announce (pmt : M.initialized = true) :
    ∃ M', (announce lib r P M).stream.pmtRewritten = some M' ∧
      (∀ x, x ∈ pmtPairs M M' ↔
        x ∈ (pmtOrgs M).zip (assignPids (announcePat lib r P).stream.pidref (pmtOrgs M)).1) ∧
      M'.streams.length = M.streams.length ∧
      M'.headerPid = pidrefGetNewPid (announcePat lib r P).stream.pidref
        (announce lib r P M).stream.pmtPid := by
  refine ⟨_, pmtRewritten_inputRewritePmt pmt, ?_, ?_, ?_⟩
  · intro x
    rw [lib.pmt_regenerate]
    exact mem_zip_rewriteStreams M.pcrPid (announcePat lib r P).stream.pidref.basePid
      (assignPid (announcePat lib r P).stream.pidref M.pcrPid).2 M.streams x
  · rw [lib.pmt_regenerate]
    exact length_rewriteStreams _ _ _ _
  · rw [lib.pmt_regenerate]
    rw [announce]
    rw [pmtPid_inputRewritePmt]

private theorem announce_announced (pat : P.initialized = true) (pmt : M.initialized = true) :
    ∃ P' M',
      Announced P M (uint16 r.channel.basePid) (announce lib r P M).stream P' M' := by
  have base : (pidrefInit 64 (uint16 r.channel.basePid)).basePid < 2 ^ 16 :=
    uint16_lt r.channel.basePid
  have after := pidref_announcePat lib (r := r) pat
  have next : (announcePat lib r P).stream.pidref.basePid =
      (uint16 r.channel.basePid + (patOrgs P.programs).length) % 2 ^ 16 := by
    rw [after, basePid_assignPids _ _ base]
    rfl
  obtain ⟨P', patNew, patRow⟩ := patRewritten_announcePat lib (r := r) pat
  obtain ⟨M', pmtNew, pmtRow, streams, header⟩ :=
    pmtRewritten_announce lib (r := r) (P := P) pmt
  rw [assigned_eq_cyclicRun _ _ base] at patRow
  rw [assigned_eq_cyclicRun _ _ (by rw [next]; exact Nat.mod_lt _ (by norm_num)), next,
    cyclicRun_mod] at pmtRow
  rw [after] at header
  exact ⟨P', M', patRewritten_inputRewritePmt.trans patNew, pmtNew, pidref_announce lib pat pmt,
    patRow, pmtRow, streams, header⟩

/-- The new PIDs the two rewriters have assigned. -/
def assignedPids (P : TsPat) (M : TsPmt) (s : InputStream) : List ℕ :=
  match s.patRewritten, s.pmtRewritten with
  | some P', some M' => (patPairs P.programs P'.programs ++ pmtPairs M M').map Prod.snd
  | _, _ => []

/-- The PMT PID, the PCR PID and the elementary PIDs of the rewritten PMT. -/
def announcedPids (s : InputStream) : List ℕ :=
  match s.pmtRewritten with
  | some M' => M'.headerPid :: M'.pcrPid :: M'.streams
  | none => []

private theorem mem_assignedPids {base : ℕ} {s : InputStream} {P' : TsPat} {M' : TsPmt}
    (h : Announced P M base s P' M') (pid : ℕ) :
    pid ∈ assignedPids P M s ↔ pid ∈ cyclicRun (2 ^ 16) base (orgs P M).length := by
  have pmtRow : (∃ x ∈ pmtPairs M M', x.2 = pid) ↔ pid ∈ cyclicRun (2 ^ 16)
      (base + (patOrgs P.programs).length) (pmtOrgs M).length := by
    simp only [h.pmtPairs]
    rw [← List.mem_map (f := Prod.snd), List.map_snd_zip (by simp)]
  rw [assignedPids]
  rw [h.pat, h.pmt, orgs, List.length_append, cyclicRun_add, List.mem_append, ← pmtRow]
  simp only [List.map_append, List.mem_append, h.patPairs, List.map_snd_zip, length_cyclicRun,
    le_refl, List.mem_map]

private theorem cyclicRun_in_window_iff {i n : ℕ} (lt : i < 256) :
    (∀ pid ∈ cyclicRun (2 ^ 16) (32 * i) n, pid ∈ window i) ↔ n ≤ 32 := by
  constructor
  · intro inside
    by_contra long
    have member : (32 * i + 32) % 2 ^ 16 ∈ cyclicRun (2 ^ 16) (32 * i) n :=
      List.mem_map.mpr ⟨32, List.mem_range.mpr (by omega), rfl⟩
    have := inside _ member
    rw [mem_window] at this
    omega
  · intro short pid member
    obtain ⟨j, below, rfl⟩ := List.mem_map.mp member
    rw [List.mem_range] at below
    rw [mem_window]
    omega

private theorem pmtPid_announce (pmtPid : (announce lib r P M).stream.pmtPid ≠ 0) :
    (patOrgs P.programs).find? (fun pid => pid ≠ 0) =
      some (announce lib r P M).stream.pmtPid := by
  have same : (announce lib r P M).stream.pmtPid = (scanPrograms
      { (inputStreamReset lib r).stream with pat := P, nitPid := 0x10 } 0 P.programs).1.pmtPid := by
    rw [announce, announcePat]
    rw [pmtPid_inputRewritePmt]
    dsimp only
    rw [pmtPid_inputRewritePat]
    dsimp only
    rw [inputProcessPat_snd]
  rw [same, scanPrograms_pmtPid] at pmtPid
  rw [same, scanPrograms_pmtPid]
  cases first : (patOrgs P.programs).find? (fun pid => pid ≠ 0) with
  | none =>
      rw [first] at pmtPid
      exact absurd rfl pmtPid
  | some pid => rfl

private theorem announcedPids_in_window (made : Made r.channel) (pat : P.initialized = true)
    (pmt : M.initialized = true) (fits : (orgs P M).length ≤ 32)
    (pmtPid : (announce lib r P M).stream.pmtPid ≠ 0) :
    ∀ pid ∈ announcedPids (announce lib r P M).stream, pid ∈ window r.channel.index := by
  have lt := made.index_lt
  have base := uint16_basePid made
  have split : (orgs P M).length = (patOrgs P.programs).length + (pmtOrgs M).length :=
    List.length_append
  obtain ⟨P', M', h⟩ := announce_announced lib (r := r) pat pmt
  rw [base] at h
  have inside := (cyclicRun_in_window_iff lt).mpr fits
  have assigned : ∀ x ∈ pmtPairs M M', x.2 ∈ window r.channel.index := by
    intro x member
    apply inside
    rw [orgs, List.length_append, cyclicRun_add]
    exact List.mem_append_right _ (List.of_mem_zip ((h.pmtPairs x).mp member)).2
  intro pid member
  rw [announcedPids] at member
  rw [h.pmt] at member
  simp only [List.mem_cons] at member
  rcases member with rfl | rfl | member
  · apply inside
    rw [orgs, List.length_append, cyclicRun_add]
    rw [h.header]
    exact List.mem_append_left _ (lookup_first (by omega) (by omega) (pmtPid_announce lib pmtPid))
  · exact assigned _ List.mem_cons_self
  · have listed : pid ∈ (M.streams.zip M'.streams).map Prod.snd := by
      rw [List.map_snd_zip h.streams.le]
      exact member
    obtain ⟨x, pair, rfl⟩ := List.mem_map.mp listed
    exact assigned x (List.mem_cons_of_mem _ pair)

/-- The rewriters stay in the window of the channel exactly as long as they replace at most
thirty-two PIDs; the PMTs of channels that do share no PID. -/
theorem assigned_in_window_iff (lib : Libs) (r : Input) (P : TsPat) (M : TsPmt)
    (made : Made r.channel) (pat : P.initialized = true) (pmt : M.initialized = true) :
    ((∀ pid ∈ assignedPids P M (announce lib r P M).stream, pid ∈ window r.channel.index) ↔
      (patOrgs P.programs).length + (pmtOrgs M).length ≤ 32) ∧
    ∀ (r₂ : Input) (P₂ : TsPat) (M₂ : TsPmt), Made r₂.channel → P₂.initialized = true →
      M₂.initialized = true → r.channel.index ≠ r₂.channel.index →
      (announce lib r P M).stream.pmtPid ≠ 0 → (announce lib r₂ P₂ M₂).stream.pmtPid ≠ 0 →
      (patOrgs P.programs).length + (pmtOrgs M).length ≤ 32 →
      (patOrgs P₂.programs).length + (pmtOrgs M₂).length ≤ 32 →
      List.Disjoint (announcedPids (announce lib r P M).stream)
        (announcedPids (announce lib r₂ P₂ M₂).stream) := by
  constructor
  · have lt := made.index_lt
    have base := uint16_basePid made
    obtain ⟨P', M', h⟩ := announce_announced lib (r := r) pat pmt
    rw [base] at h
    rw [← cyclicRun_in_window_iff lt, ← List.length_append]
    simp only [mem_assignedPids h, orgs]
  · intro r₂ P₂ M₂ made₂ pat₂ pmt₂ ne program program₂ fits fits₂ pid one two
    have inside := announcedPids_in_window lib made pat pmt (by simpa [orgs] using fits) program
    have inside₂ :=
      announcedPids_in_window lib made₂ pat₂ pmt₂ (by simpa [orgs] using fits₂) program₂
    exact window_disjoint ne (inside pid one) (inside₂ pid two)

/-- An input of the channel with this index, before it has read anything. -/
def sampleInput (index : ℕ) : Input := inputNew sectionLibs "tv" (sampleChannel index 0) false

theorem assigned_in_window_two_channels :
    (∀ pid ∈ assignedPids (samplePat [⟨1, 0x100⟩]) (samplePmt 0x100 1 0x101 [0x101, 0x102])
      (announce sectionLibs (sampleInput 1) (samplePat [⟨1, 0x100⟩])
        (samplePmt 0x100 1 0x101 [0x101, 0x102])).stream, pid ∈ window 1) ∧
    List.Disjoint
      (announcedPids (announce sectionLibs (sampleInput 1) (samplePat [⟨1, 0x100⟩])
        (samplePmt 0x100 1 0x101 [0x101, 0x102])).stream)
      (announcedPids (announce sectionLibs (sampleInput 2) (samplePat [⟨1, 0x100⟩])
        (samplePmt 0x100 1 0x101 [0x101, 0x102])).stream) := by
  have both := assigned_in_window_iff sectionLibs (sampleInput 1) (samplePat [⟨1, 0x100⟩])
    (samplePmt 0x100 1 0x101 [0x101, 0x102])
    (sampleChannel_made (by norm_num) (by norm_num) 0) (by decide +kernel) (by decide +kernel)
  exact ⟨both.1.mpr (by decide +kernel), both.2 (sampleInput 2) _ _
    (sampleChannel_made (by norm_num) (by norm_num) 0) (by decide +kernel) (by decide +kernel)
    (by decide) (by decide +kernel) (by decide +kernel) (by decide +kernel) (by decide +kernel)⟩

/-- A PMT with thirty-two streams beside the PCR PID runs into the next channel's window. -/
theorem assigned_outside_window :
    64 ∈ assignedPids (samplePat [⟨1, 0x100⟩])
      (samplePmt 0x100 1 0x101 (List.range' 0x102 32))
      (announce sectionLibs (sampleInput 1) (samplePat [⟨1, 0x100⟩])
        (samplePmt 0x100 1 0x101 (List.range' 0x102 32))).stream ∧
    64 ∉ window 1 ∧
    ¬ List.Disjoint
      (announcedPids (announce sectionLibs (sampleInput 1) (samplePat [⟨1, 0x100⟩])
        (samplePmt 0x100 1 0x101 (List.range' 0x102 32))).stream)
      (announcedPids (announce sectionLibs (sampleInput 2) (samplePat [⟨1, 0x100⟩])
        (samplePmt 0x100 1 0x101 [0x101, 0x102])).stream) := by
  refine ⟨by decide +kernel, by simp [mem_window], ?_⟩
  intro disjoint
  exact @disjoint 64 (by decide +kernel) (by decide +kernel)

/-- Packets of every announced PID are sent under the PID announced for them, and different PIDs
are announced differently. -/
structure Consistent (ts : TsFuncs) (M M' : TsPmt) (ref : Pidref) : Prop where
  written : ∀ x ∈ pmtPairs M M', ∀ p, pidrefChangePacketPid ts p x.1 ref = (x.2, ts.setPid p x.2)
  distinct : ∀ x ∈ pmtPairs M M', ∀ y ∈ pmtPairs M M', x.1 ≠ y.1 → x.2 ≠ y.2

private theorem written_iff (ts : TsFuncs) (ref : Pidref) (org new : ℕ) :
    (∀ p, pidrefChangePacketPid ts p org ref = (new, ts.setPid p new)) ↔
      pidrefGetNewPid ref org = new ∧ new ≠ 0 := by
  constructor
  · intro written
    have null := written nullPacket
    unfold pidrefChangePacketPid at null
    dsimp only at null
    split at null
    · rename_i found
      obtain ⟨same, -⟩ := Prod.mk.inj null
      exact ⟨same, same ▸ found⟩
    · obtain ⟨rfl, same⟩ := Prod.mk.inj null
      have pids := congrArg ts.getPid same
      simp [ts.getPid_setPid, nullPid] at pids
  · rintro ⟨rfl, found⟩ p
    rw [pidrefChangePacketPid]
    exact if_pos found

private theorem find_take {l : List PidrefEntry} {n k : ℕ} (inside : k < l.length)
    (first : ∀ j (h : j < k), (l[j]).orgPid ≠ (l[k]).orgPid) :
    (l.take n).find? (fun entry => entry.orgPid = (l[k]).orgPid) =
      if k < n then some l[k] else none := by
  split
  · rename_i below
    rw [List.find?_eq_some_iff_getElem]
    refine ⟨by simp, k, by simp; omega, by simp, ?_⟩
    intro j earlier
    simpa using first j earlier
  · rename_i behind
    rw [List.find?_eq_none]
    intro entry member
    obtain ⟨j, below, rfl⟩ := List.mem_iff_getElem.mp member
    rw [List.length_take] at below
    simpa using first j (by omega)

/-- No PID is zero, and the streams have PIDs of their own. -/
structure PidsDiffer (P : TsPat) (M : TsPmt) : Prop where
  programs : ∀ pid ∈ patOrgs P.programs, pid ≠ 0
  pcr : M.pcrPid ≠ 0
  streams : ∀ pid ∈ M.streams, pid ≠ 0
  nodup : M.streams.Nodup
  apart : ∀ pid ∈ M.pcrPid :: M.streams, pid ∉ patOrgs P.programs

private theorem PidsDiffer.nodup_pmtOrgs (h : PidsDiffer P M) : (pmtOrgs M).Nodup := by
  refine List.nodup_cons.mpr ⟨?_, h.nodup.filter _⟩
  simp

private theorem PidsDiffer.mem_pmtOrgs (h : PidsDiffer P M) {pid : ℕ} (member : pid ∈ pmtOrgs M) :
    pid ≠ 0 ∧ pid ∉ patOrgs P.programs := by
  have listed : pid ∈ M.pcrPid :: M.streams := by
    rcases List.mem_cons.mp member with rfl | member
    · exact List.mem_cons_self
    · exact List.mem_cons_of_mem _ (List.mem_of_mem_filter member)
  refine ⟨?_, h.apart pid listed⟩
  rcases List.mem_cons.mp listed with rfl | stream
  · exact h.pcr
  · exact h.streams pid stream

private theorem PidsDiffer.requests_orgs (h : PidsDiffer P M) (base : ℕ) :
    requests base (orgs P M) =
      ((orgs P M).zip (cyclicRun (2 ^ 16) base (orgs P M).length)).map (fun x => ⟨x.1, x.2⟩) := by
  rw [requests, List.filter_eq_self]
  intro entry member
  obtain ⟨x, pair, rfl⟩ := List.mem_map.mp member
  have listed : x.1 ∈ orgs P M := (List.of_mem_zip pair).1
  rcases List.mem_append.mp listed with pat | pmt
  · simpa using h.programs _ pat
  · simpa using (h.mem_pmtOrgs pmt).1

private theorem lookup_pmtOrgs (h : PidsDiffer P M) (base : ℕ) {k : ℕ} (small : base < 2 ^ 16)
    (inside : k < (pmtOrgs M).length) :
    pidrefGetNewPid (assignPids (pidrefInit 64 base) (orgs P M)).2 (pmtOrgs M)[k] =
      if (patOrgs P.programs).length + k < 64
      then (base + ((patOrgs P.programs).length + k)) % 2 ^ 16 else 0 := by
  have records := records_assigned 64 (orgs P M) small
  rw [h.requests_orgs] at records
  have entry_inside : (patOrgs P.programs).length + k < (orgs P M).length := by
    rw [orgs, List.length_append]
    omega
  have key : (orgs P M)[(patOrgs P.programs).length + k] = (pmtOrgs M)[k] := by
    simp [orgs]
  have first : ∀ j (_ : j < (patOrgs P.programs).length + k) (_ : j < (orgs P M).length),
      (orgs P M)[j] ≠ (pmtOrgs M)[k] := by
    intro j earlier listed same
    by_cases pat : j < (patOrgs P.programs).length
    · simp only [orgs, List.getElem_append_left pat] at same
      exact (h.mem_pmtOrgs (List.getElem_mem inside)).2 (same ▸ List.getElem_mem pat)
    · simp only [orgs, List.getElem_append_right (Nat.le_of_not_lt pat)] at same
      have := (h.nodup_pmtOrgs.getElem_inj_iff).mp same
      omega
  have found := find_take
    (l := ((orgs P M).zip (cyclicRun (2 ^ 16) base (orgs P M).length)).map
      (fun x => (⟨x.1, x.2⟩ : PidrefEntry)))
    (n := 64) (k := (patOrgs P.programs).length + k) (by simpa using entry_inside)
    (by
      intro j earlier
      simpa [key] using first j earlier (by omega))
  simp only [List.getElem_map, List.getElem_zip, key] at found
  rw [records.getNewPid (h.mem_pmtOrgs (List.getElem_mem inside)).1, found]
  split <;> simp [cyclicRun]

/-- Packets follow the announced PMT exactly as long as the PID table has room for every PID. -/
theorem announced_consistent_iff (lib : Libs) (r : Input) (P : TsPat) (M : TsPmt)
    (made : Made r.channel) (pat : P.initialized = true) (pmt : M.initialized = true)
    (differ : PidsDiffer P M) :
    ∃ M', (announce lib r P M).stream.pmtRewritten = some M' ∧
      M'.streams.length = M.streams.length ∧
      (Consistent lib.toTsFuncs M M' (announce lib r P M).stream.pidref ↔
        (patOrgs P.programs).length + (pmtOrgs M).length ≤ 64) := by
  have lt := made.index_lt
  have pos := made.index_pos
  have base := uint16_basePid made
  obtain ⟨P', M', h⟩ := announce_announced lib (r := r) pat pmt
  rw [base] at h
  have lookup : ∀ k (inside : k < (pmtOrgs M).length), _ := fun k inside =>
    lookup_pmtOrgs differ (32 * r.channel.index) (by omega) inside
  have pairs : ∀ x, x ∈ pmtPairs M M' ↔ ∃ k, ∃ (inside : k < (pmtOrgs M).length),
      x = ((pmtOrgs M)[k],
        (32 * r.channel.index + ((patOrgs P.programs).length + k)) % 2 ^ 16) := by
    intro x
    rw [h.pmtPairs, List.mem_iff_getElem]
    simp [cyclicRun, eq_comm, Nat.add_assoc]
  refine ⟨M', h.pmt, h.streams, ?_⟩
  rw [h.pidref]
  constructor
  · intro consistent
    by_contra full
    -- the last stream of the PMT no longer fits
    have inside : (pmtOrgs M).length - 1 < (pmtOrgs M).length := by
      simp [pmtOrgs]
    have last := (written_iff _ _ _ _).mp
      (consistent.written _ ((pairs _).mpr ⟨_, inside, rfl⟩))
    rw [lookup _ inside, if_neg (by omega)] at last
    exact last.2 last.1.symm
  · intro room
    constructor
    · intro x member
      obtain ⟨k, inside, rfl⟩ := (pairs x).mp member
      rw [written_iff, lookup k inside, if_pos (by omega)]
      refine ⟨rfl, ?_⟩
      dsimp only
      omega
    · intro x member y member' ne
      obtain ⟨k, inside, rfl⟩ := (pairs x).mp member
      obtain ⟨j, inside', rfl⟩ := (pairs y).mp member'
      intro same
      have equal : k = j := by
        dsimp only at same
        omega
      subst equal
      exact ne rfl

/-- The PCR and two elementary streams of a channel with index 5. -/
theorem announced_consistent_three_pids :
    ∃ M', (announce sectionLibs (sampleInput 5) (samplePat [⟨0, 0x10⟩, ⟨7, 0x20⟩])
        (samplePmt 0x20 7 0x21 [0x22, 0x23])).stream.pmtRewritten = some M' ∧
      Consistent sectionLibs.toTsFuncs (samplePmt 0x20 7 0x21 [0x22, 0x23]) M'
        (announce sectionLibs (sampleInput 5) (samplePat [⟨0, 0x10⟩, ⟨7, 0x20⟩])
          (samplePmt 0x20 7 0x21 [0x22, 0x23])).stream.pidref := by
  obtain ⟨M', rewritten, -, consistent⟩ := announced_consistent_iff sectionLibs (sampleInput 5)
    (samplePat [⟨0, 0x10⟩, ⟨7, 0x20⟩]) (samplePmt 0x20 7 0x21 [0x22, 0x23])
    (sampleChannel_made (by norm_num) (by norm_num) 0) (by decide +kernel) (by decide +kernel)
    ⟨by decide +kernel, by decide +kernel, by decide +kernel, by decide +kernel,
      by decide +kernel⟩
  exact ⟨M', rewritten, consistent.mpr (by decide +kernel)⟩

/-- With sixty-four streams beside the PCR PID the last two are announced but not rewritten. -/
theorem announced_inconsistent :
    PidsDiffer (samplePat [⟨1, 0x100⟩]) (samplePmt 0x100 1 0x101 (List.range' 0x102 64)) ∧
    ∃ M', (announce sectionLibs (sampleInput 1) (samplePat [⟨1, 0x100⟩])
        (samplePmt 0x100 1 0x101 (List.range' 0x102 64))).stream.pmtRewritten = some M' ∧
      (0x141, 97) ∈ pmtPairs (samplePmt 0x100 1 0x101 (List.range' 0x102 64)) M' ∧
      pidrefGetNewPid (announce sectionLibs (sampleInput 1) (samplePat [⟨1, 0x100⟩])
        (samplePmt 0x100 1 0x101 (List.range' 0x102 64))).stream.pidref 0x141 = 0 ∧
      ¬ Consistent sectionLibs.toTsFuncs (samplePmt 0x100 1 0x101 (List.range' 0x102 64)) M'
        (announce sectionLibs (sampleInput 1) (samplePat [⟨1, 0x100⟩])
          (samplePmt 0x100 1 0x101 (List.range' 0x102 64))).stream.pidref := by
  refine ⟨⟨by decide +kernel, by decide +kernel, by decide +kernel, by decide +kernel,
    by decide +kernel⟩, (announce sectionLibs (sampleInput 1) (samplePat [⟨1, 0x100⟩])
        (samplePmt 0x100 1 0x101 (List.range' 0x102 64))).stream.pmtRewritten.get
          (by decide +kernel), (Option.some_get _).symm, by decide +kernel, by decide +kernel, ?_⟩
  intro consistent
  have written := (written_iff _ _ _ _).mp (consistent.written (0x141, 97) (by decide +kernel))
  exact absurd written.1 (by decide +kernel)

end Mptsd.Intake.Announce
