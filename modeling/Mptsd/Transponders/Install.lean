/- Unit: Mptsd/Transponders/Install
   source: src/output_psi.c (output_psi_init_nit), src/data.c (nit_new), src/config.c
   (config_load_nit, config_load)
   digest: When the NIT of a loaded configuration is installed. -/

import Mptsd.Transponders.Model

set_option autoImplicit false
set_option relaxedAutoImplicit false

namespace Mptsd.Transponders.Install

open Mptsd.Channels (Channel)
open Mptsd.Ini
open Mptsd.Reload.Load (parseChannels)
open Mptsd.Transponders.Model

/-- An entry of the list of transponders, with strings that `nit_new` accepts. -/
structure Entry (n : Nit) : Prop where
  freq : n.freq.length = 9
  symbolRate : n.symbolRate.length = 8

/-- No pointer of the list is null. -/
def Sound (nit : List (Option Nit)) : Prop := ∀ lc ∈ nit, ∃ n, lc = some n ∧ Entry n

/-- The list has the transponder of the stream. -/
def Described (conf : NitConf) : Prop := ∃ n, some n ∈ conf.nit ∧ n.tsId = conf.transportStreamId

section fold

variable {α β ε : Type*} {step : β → α → Except ε β} {Holds : β → Prop} {l : List α}

theorem ok_bind {ε α β : Type} (a : α) (f : α → Except ε β) : (Except.ok a >>= f) = f a := rfl

theorem of_bind_ok {ε α β : Type} {x : Except ε α} {f : α → Except ε β} {b : β}
    (done : (x >>= f) = .ok b) : ∃ a, x = .ok a ∧ f a = .ok b := by
  cases x with
  | error fault => cases done
  | ok a => exact ⟨a, rfl, done⟩

private theorem foldlM_keeps (turn : ∀ b, Holds b → ∀ a ∈ l, ∀ b', step b a = .ok b' → Holds b')
    {b b' : β}
    (start : Holds b) (done : l.foldlM step b = .ok b') : Holds b' := by
  induction l generalizing b with
  | nil =>
      cases done
      exact start
  | cons a rest ih =>
      rw [List.foldlM_cons] at done
      cases one : step b a with
      | error fault =>
          rw [one] at done
          cases done
      | ok c =>
          rw [one] at done
          exact ih (fun c h x member => turn c h x (List.mem_cons_of_mem _ member))
            (turn b start a List.mem_cons_self c one) done

private theorem foldlM_ok (turn : ∀ b, Holds b → ∀ a ∈ l, ∃ b', step b a = .ok b' ∧ Holds b')
    {b : β}
    (start : Holds b) : ∃ b', l.foldlM step b = .ok b' ∧ Holds b' := by
  induction l generalizing b with
  | nil => exact ⟨b, rfl, start⟩
  | cons a rest ih =>
      obtain ⟨b', one, holds⟩ := turn b start a List.mem_cons_self
      obtain ⟨b'', others, end_⟩ :=
        ih (fun c h x member => turn c h x (List.mem_cons_of_mem _ member)) holds
      exact ⟨b'', by rw [List.foldlM_cons, one]; exact others, end_⟩

end fold

private theorem nitNew_of_length (behind : List Char) (tsId : ℕ) {f m r : String}
    (freq : f.length = 9)
    (symbolRate : r.length = 8) :
    ∃ n, nitNew behind tsId (some f) (some m) (some r) = .ok (some n) ∧ n.tsId = tsId ∧
      Entry n := by
  refine ⟨⟨f, m, r, tsId, strtol16 (digitBuffer f) behind, modulationCode m,
    strtol16 (digitBuffer r) behind⟩, ?_, rfl, freq, symbolRate⟩
  simp only [nitNew, readString, ok_bind]
  rw [if_neg (not_not.mpr freq), if_neg (not_not.mpr symbolRate)]
  rfl

private theorem sound_loadTransponder (behind : ℕ → List Char) (ini : Dictionary)
    {nit : List (Option Nit)}
    (sound : Sound nit) (i : ℕ) {nit' : List (Option Nit)}
    (done : loadTransponder behind ini nit i = .ok nit') : Sound nit' := by
  unfold loadTransponder at done
  dsimp only at done
  split at done
  · cases done
  split at done
  · rename_i freq mod sr _ _ _
    split at done
    · rename_i valid
      obtain ⟨n, made, -, entry⟩ := nitNew_of_length (behind i)
        (uint16 (iniGetInt (valuesOf ini) 0 (key i "transport_stream_id"))) (m := mod) valid.2.1
        valid.2.2
      rw [made] at done
      cases done
      intro lc member
      rcases List.mem_append.mp member with before | new
      · exact sound lc before
      · exact ⟨n, List.mem_singleton.mp new, entry⟩
    · cases done
      exact sound
  · cases done
    exact sound

private theorem sound_configLoadNit {behind : ℕ → List Char} {ini : Dictionary}
    {name : Option String}
    {nit : List (Option Nit)} (done : configLoadNit behind ini = .ok (name, nit)) : Sound nit := by
  obtain ⟨nit', loaded, made⟩ := of_bind_ok done
  cases made
  exact foldlM_keeps (fun _ sound i _ _ one => sound_loadTransponder behind ini sound i one)
    (List.forall_mem_nil _) loaded

private theorem sound_configLoad {behind : ℕ → List Char} {useLcn : Bool}
    {globalConf nitConf channelsConf : Option Dictionary} {conf : NitConf}
    (loaded : configLoad behind useLcn globalConf nitConf channelsConf = .ok (some conf)) :
    conf.useLcn = useLcn ∧ Sound conf.nit := by
  unfold configLoad at loaded
  cases globalConf with
  | none => cases loaded
  | some global =>
      dsimp only at loaded
      split at loaded
      · cases loaded
      cases nitConf with
      | none => cases loaded
      | some network =>
          obtain ⟨⟨name, nit⟩, read, loaded⟩ := of_bind_ok loaded
          have sound := sound_configLoadNit read
          cases channelsConf with
          | none => cases loaded
          | some ini =>
              dsimp only at loaded
              cases parsed : parseChannels ini with
              | none =>
                  rw [parsed] at loaded
                  cases loaded
              | some file =>
                  rw [parsed] at loaded
                  dsimp only at loaded
                  split at loaded
                  · cases loaded
                  · cases loaded
                    exact ⟨rfl, sound⟩

section init

variable {lib : NitLib} {conf : NitConf} {nit : List (Option Nit)}

variable (conf) in
private theorem addCable_ok (sound : Sound nit) (t : lib.TsNit) :
    ∃ t', nit.foldlM (addCable lib conf) t = .ok t' := by
  have turn : ∀ t, True → ∀ lc ∈ nit, ∃ t', addCable lib conf t lc = .ok t' ∧ True := by
    intro t _ lc member
    obtain ⟨n, rfl, -⟩ := sound lc member
    exact ⟨_, rfl, trivial⟩
  obtain ⟨t', added, -⟩ := foldlM_ok turn (b := t) trivial
  exact ⟨t', added⟩

private theorem initPlain_ok (sound : Sound conf.nit) (t : lib.TsNit) :
    ∃ t', initPlain lib conf t = .ok t' := by
  have freqs : ∀ l : List (Option Nit), Sound l →
      ∃ freqs, (l.mapM fun lc => Nit.freqCode <$> deref lc) = .ok freqs := by
    intro l sound
    induction l with
    | nil => exact ⟨[], rfl⟩
    | cons lc rest ih =>
        obtain ⟨n, rfl, -⟩ := sound lc List.mem_cons_self
        obtain ⟨freqs, others⟩ := ih fun x member => sound x (List.mem_cons_of_mem _ member)
        exact ⟨n.freqCode :: freqs, by rw [List.mapM_cons, others]; rfl⟩
  rw [initPlain]
  split
  · obtain ⟨freqs, listed⟩ := freqs conf.nit sound
    obtain ⟨t', cabled⟩ := addCable_ok conf sound
      (lib.addFrequencyListDescriptorCable t conf.transportStreamId conf.networkId freqs)
    exact ⟨_, by rw [listed, ok_bind]; dsimp only; rw [cabled, ok_bind]; rfl⟩
  · exact ⟨t, rfl⟩

/-- The strings that the search has found are those of an entry. -/
def Complete (found : Found) : Prop :=
  ∃ f m r, found.freq = some f ∧ found.modulation = some m ∧ found.symbolRate = some r ∧
    f.length = 9 ∧ r.length = 8

variable (conf) in
private theorem findTransponder_fold (sound : Sound nit) (start : Found) :
    ∃ found, nit.foldlM (findTransponder conf) start = .ok found ∧
      ((∃ n, some n ∈ nit ∧ n.tsId = conf.transportStreamId) → Complete found) ∧
      ((¬ ∃ n, some n ∈ nit ∧ n.tsId = conf.transportStreamId) → found = start) ∧
      (Complete start → Complete found) := by
  induction nit generalizing start with
  | nil => exact ⟨start, rfl, by simp, by simp, id⟩
  | cons lc rest ih =>
      obtain ⟨n, rfl, entry⟩ := sound lc List.mem_cons_self
      have others : Sound rest := fun x member => sound x (List.mem_cons_of_mem _ member)
      by_cases same : n.tsId = conf.transportStreamId
      · obtain ⟨found, run, -, -, kept⟩ := ih others
          ⟨some n.freq, some n.modulation, some n.symbolRate, n.freqCode, n.modulationCode,
            n.symbolRateCode⟩
        have complete := kept ⟨_, _, _, rfl, rfl, rfl, entry.freq, entry.symbolRate⟩
        refine ⟨found, ?_, fun _ => complete, fun missing => ?_, fun _ => complete⟩
        · rw [List.foldlM_cons, findTransponder, deref, ok_bind, if_pos same]
          exact run
        · exact absurd ⟨n, List.mem_cons_self, same⟩ missing
      · obtain ⟨found, run, complete, untouched, kept⟩ := ih others start
        refine ⟨found, ?_, ?_, ?_, kept⟩
        · rw [List.foldlM_cons, findTransponder, deref, ok_bind, if_neg same]
          exact run
        · rintro ⟨n', member, is⟩
          rcases List.mem_cons.mp member with head | tail
          · cases head
            exact absurd is same
          · exact complete ⟨n', tail, is⟩
        · intro missing
          apply untouched
          rintro ⟨n', tail, is⟩
          exact missing ⟨n', List.mem_cons_of_mem _ tail, is⟩

private theorem initLcn_of_not_described (sound : Sound conf.nit) (behind : List Char)
    (missing : ¬ Described conf) (t : lib.TsNit) :
    initLcn lib conf behind t = .error .nullString := by
  obtain ⟨found, run, -, untouched, -⟩ :=
    findTransponder_fold conf sound Found.start
  obtain rfl := untouched missing
  rw [initLcn, run]
  rfl

private theorem initLcn_ok_iff (sound : Sound conf.nit) (behind : List Char) (t : lib.TsNit) :
    (∃ t', initLcn lib conf behind t = .ok t') ↔ Described conf := by
  obtain ⟨found, run, complete, -, -⟩ :=
    findTransponder_fold conf sound Found.start
  constructor
  · rintro ⟨t', done⟩
    by_contra missing
    rw [initLcn_of_not_described sound behind missing] at done
    cases done
  · intro described
    obtain ⟨f, m, r, freq, modulation, symbolRate, nine, eight⟩ := complete described
    obtain ⟨n, made, -, -⟩ := nitNew_of_length behind conf.transportStreamId (m := m) nine eight
    rw [initLcn]
    rw [run, ok_bind, freq, modulation, symbolRate, made, ok_bind, deref, ok_bind]
    dsimp only
    split
    · exact addCable_ok conf sound _
    · exact ⟨_, rfl⟩

end init

/-- Whatever the files hold: the NIT of a loaded configuration is made without a null string or a
null transponder, and installed, if and only if there are no channel numbers or the transponder of
the stream is among those of the network. -/
theorem nit_installed_iff (lib : NitLib) (behind : ℕ → List Char) (useLcn : Bool)
    (globalConf nitConf channelsConf : Option Dictionary) (conf : NitConf)
    (loaded : configLoad behind useLcn globalConf nitConf channelsConf = .ok (some conf))
    (stack : List Char) (now : ℤ) (o : NitOutput lib) :
    (∃ o', outputPsiInitNit lib conf stack now o = .ok o' ∧ o'.nit.isSome) ↔
      useLcn = false ∨ Described conf := by
  obtain ⟨switch, sound⟩ := sound_configLoad loaded
  have installed : ∀ {made : Except Fault lib.TsNit},
      (∃ o', (made >>= fun nit => .ok { o with nit := some nit, nitTs := now }) = .ok o' ∧
        o'.nit.isSome) ↔ ∃ t, made = .ok t := by
    intro made
    cases made with
    | error fault => exact iff_of_false (by rintro ⟨o', done, -⟩; cases done) (by simp)
    | ok t => exact iff_of_true ⟨_, rfl, rfl⟩ ⟨t, rfl⟩
  rw [outputPsiInitNit]
  rw [switch]
  cases useLcn with
  | false => exact installed.trans (iff_of_true (initPlain_ok sound _) (Or.inl rfl))
  | true => exact installed.trans ((initLcn_ok_iff sound stack _).trans (by simp))

/-- A NIT as the descriptors that were added to it, by tag and values. -/
def sampleLib : NitLib where
  TsNit := List (ℕ × List ℕ)
  allocInit _ := []
  addNetworkNameDescriptor t name := t ++ [(0x40, (name.getD "").toList.map Char.toNat)]
  addFrequencyListDescriptorCable t _ _ freqs := t ++ [(0x62, freqs)]
  addCableDeliveryDescriptor t tsId networkId freq modulation symbolRate :=
    t ++ [(0x44, [tsId, networkId, freq, modulation, symbolRate])]
  addServiceListDescriptor t _ _ services := t ++ [(0x41, services.map BitVec.toNat)]
  addStreamDescriptors t tsId networkId freq modulation symbolRate lcns services :=
    t ++ [(0x44, [tsId, networkId, freq, modulation, symbolRate]),
      (0x83, lcns.map BitVec.toNat), (0x41, services.map BitVec.toNat)]

def sampleGlobal : Dictionary := fun key =>
  List.lookup key [("global", none), ("global:network_id", some "1")]

def sampleNetwork : Dictionary := fun key =>
  List.lookup key [("transponder1", none), ("transponder1:transport_stream_id", some "1"),
    ("transponder1:frequency", some "0658,0000"), ("transponder1:modulation", some "64-QAM"),
    ("transponder1:symbol_rate", some "006,8750")]

def sampleChannels (transportStreamId : String) : Dictionary := fun key =>
  List.lookup key [("global", none), ("global:transport_stream_id", some transportStreamId),
    ("channel1", none), ("channel1:service_id", some "1"), ("channel1:id", some "btv"),
    ("channel1:name", some "bTV"), ("channel1:source1", some "udp://239.0.0.1:5000/")]

def sampleLoad (transportStreamId : String) : Except Fault (Option NitConf) :=
  configLoad (fun _ => []) true (some sampleGlobal) (some sampleNetwork)
    (some (sampleChannels transportStreamId))

private theorem network_loaded :
    ∃ networkName nit, configLoadNit (fun _ => []) sampleNetwork = .ok (networkName, nit) ∧
      ∀ n, some n ∈ nit → n.tsId = 1 := by
  have computed : (configLoadNit (fun _ => []) sampleNetwork).toOption.any
      (fun x => x.2.all fun lc => lc.all fun n => n.tsId == 1) = true := by
    decide +kernel
  generalize configLoadNit (fun _ => []) sampleNetwork = loaded at computed
  cases loaded with
  | error fault => cases computed
  | ok x =>
      refine ⟨x.1, x.2, rfl, fun n member => ?_⟩
      exact eq_of_beq (List.all_eq_true.mp computed (some n) member)

private theorem configLoad_ok (useLcn : Bool) {global : Dictionary}
    (numbers : globalNumbers.any (fun key => NamesSection global key) = false)
    {behind : ℕ → List Char}
    {network ini : Dictionary} {networkName : Option String} {nit : List (Option Nit)}
    {file : Reload.Load.ChannelsFile}
    (loaded : configLoadNit behind network = .ok (networkName, nit))
    (found : parseChannels ini = some file) (channels : file.channels ≠ []) :
    ∃ conf, configLoad behind useLcn (some global) (some network) (some ini) = .ok (some conf) ∧
      conf.transportStreamId = uint16 file.transportStreamId ∧ conf.nit = nit := by
  rw [configLoad]
  simp only [numbers, Bool.false_eq_true, if_false, loaded, ok_bind, found, if_neg channels]
  exact ⟨_, rfl, rfl, rfl⟩

private theorem sampleLoad_of_channels {transportStreamId : String} {number : ℕ}
    (parsed : (parseChannels (sampleChannels transportStreamId)).any (fun file =>
      !file.channels.isEmpty && uint16 file.transportStreamId == number) = true) :
    ∃ conf, sampleLoad transportStreamId = .ok (some conf) ∧ conf.transportStreamId = number ∧
      ∀ n, some n ∈ conf.nit → n.tsId = 1 := by
  obtain ⟨networkName, nit, loaded, one⟩ := network_loaded
  obtain ⟨file, found, shape⟩ := (Option.any_eq_true _ _).mp parsed
  obtain ⟨channels, same⟩ := Bool.and_eq_true_iff.mp shape
  have numbers : globalNumbers.any (fun key => NamesSection sampleGlobal key) = false := by
    decide +kernel
  obtain ⟨conf, complete, stream, network⟩ :=
    configLoad_ok true numbers loaded found (by simpa using channels)
  exact ⟨conf, complete, stream.trans (eq_of_beq same), fun n member => one n (network ▸ member)⟩

theorem nit_installed_iff_described :
    ∃ conf, sampleLoad "1" = .ok (some conf) ∧
      ((∃ o', outputPsiInitNit sampleLib conf [] 0 ⟨none, 0⟩ = .ok o' ∧ o'.nit.isSome) ↔
        true = false ∨ Described conf) := by
  obtain ⟨conf, loaded, -⟩ := @sampleLoad_of_channels "1" 1 (by decide +kernel)
  exact ⟨conf, loaded, nit_installed_iff sampleLib _ true _ _ _ conf loaded [] 0 ⟨none, 0⟩⟩

/-- The channels are those of the stream 2, which has no transponder in the network. -/
theorem transponder_missing :
    ∃ conf, sampleLoad "2" = .ok (some conf) ∧
      outputPsiInitNit sampleLib conf [] 0 ⟨none, 0⟩ = .error .nullString := by
  obtain ⟨conf, loaded, number, one⟩ := @sampleLoad_of_channels "2" 2 (by decide +kernel)
  obtain ⟨switch, sound⟩ := sound_configLoad loaded
  have undescribed : ¬ Described conf := by
    rintro ⟨n, member, same⟩
    rw [number, one n member] at same
    cases same
  refine ⟨conf, loaded, ?_⟩
  rw [outputPsiInitNit]
  rw [if_pos switch, initLcn_of_not_described sound [] undescribed]
  rfl

end Mptsd.Transponders.Install
