/- Unit: Mptsd/Transponders/Words
   source: src/output_psi.c (output_psi_init_nit), src/config.c (config_load_channels, lcn)
   digest: The words that list the services and the channel numbers in the NIT, and what can be read
   in them. -/

import Mptsd.Lib.Fields
import Mptsd.Transponders.Install

set_option autoImplicit false
set_option relaxedAutoImplicit false

namespace Mptsd.Transponders.Words

open Mptsd.Channels (Channel sampleChannel)
open Mptsd.Lib.Fields
open Mptsd.Reload.Load (loadSections oneSection)
open Mptsd.Transponders.Model
open Mptsd.Transponders.Install (of_bind_ok)

/-- An entry of the list of channel numbers. -/
structure LcnEntry where
  serviceId : ℤ
  visible : Bool
  lcn : ℤ
  deriving DecidableEq

/-- The service in bits 31 to 16, the visibility in bit 15, the number in bits 13 to 0. -/
def readLcn (w : BitVec 32) : LcnEntry where
  serviceId := (w.extractLsb' 16 16).toNat
  visible := w.getLsbD 15
  lcn := (w.extractLsb' 0 14).toNat

/-- An entry of the list of services. -/
structure ServiceEntry where
  serviceId : ℤ
  type : ℤ
  deriving DecidableEq

/-- The service in bits 23 to 8, its type below. -/
def readService (w : BitVec 32) : ServiceEntry where
  serviceId := (w.extractLsb' 8 16).toNat
  type := (w.extractLsb' 0 8).toNat

/-- What the lists are meant to say about a channel. -/
def lcnEntry (c : Channel) : LcnEntry := ⟨c.serviceId, c.lcnVisible ≠ 0, c.lcn % 2 ^ 14⟩

def serviceEntry (c : Channel) : ServiceEntry := ⟨c.serviceId, if c.radio ≠ 0 then 2 else 1⟩

/-- The upper half of the number adds no bit to the service id. -/
def Fits (c : Channel) : Prop :=
  Within ((BitVec.ofInt 32 c.lcn).extractLsb' 16 16) ((BitVec.ofInt 32 c.serviceId).setWidth 16)

instance (c : Channel) : Decidable (Fits c) := inferInstanceAs (Decidable (Within _ _))

section words

variable (c : Channel)

private theorem serviceWord_eq :
    serviceWord c =
      BitVec.ofInt 32 c.serviceId <<< 8 ||| (if c.radio ≠ 0 then 0x02#32 else 0x01#32) := by
  have whole := and_not_or_and_not_of_disjoint (BitVec.ofInt 32 c.serviceId)
    (show 0x00ff#32 &&& 0xff00#32 = 0#32 from rfl)
  simp only [serviceWord]
  rw [← BitVec.shiftLeft_or_distrib, whole]

private theorem lcnWord_eq :
    lcnWord c =
      BitVec.ofInt 32 c.serviceId <<< 16 ||| (if c.lcnVisible ≠ 0 then 0x01#32 else 0x00#32) <<< 15
        ||| BitVec.ofInt 32 c.lcn &&& ~~~0xc000#32 := by
  have whole := and_not_or_and_not_of_disjoint (BitVec.ofInt 32 c.serviceId)
    (show 0x00ff#32 &&& 0xff00#32 = 0#32 from rfl)
  have number := and_not_or_and_not (BitVec.ofInt 32 c.lcn) 0xc0ff#32 0xff00#32
  have masks : 0xc0ff#32 &&& 0xff00#32 = 0xc000#32 := rfl
  have unused : (0x00#32 &&& ~~~0xf0#32) <<< 14 = 0#32 := rfl
  have hidden : 0x00#32 &&& ~~~0xf0#32 = 0x00#32 := rfl
  simp only [lcnWord]
  rw [← BitVec.shiftLeft_or_distrib, whole, unused, hidden, BitVec.or_zero, BitVec.or_assoc _
    (BitVec.ofInt 32 c.lcn &&& ~~~0xc0ff#32), number, masks]

private theorem readService_serviceWord (low : 0 ≤ c.serviceId) (high : c.serviceId ≤ 65535) :
    readService (serviceWord c) = serviceEntry c := by
  have service : ((serviceWord c).extractLsb' 8 16).toNat = c.serviceId := by
    have below : ∀ t : BitVec 32, t = 0x02#32 ∨ t = 0x01#32 → t.extractLsb' 8 16 = 0#16 := by
      rintro t (rfl | rfl)
      · rfl
      · rfl
    have type : (if c.radio ≠ 0 then 0x02#32 else 0x01#32).extractLsb' 8 16 = 0#16 := by
      apply below
      split
      · exact Or.inl rfl
      · exact Or.inr rfl
    rw [serviceWord_eq, BitVec.extractLsb'_or, type, extractLsb'_shiftLeft _ (by norm_num),
      BitVec.or_zero, toNat_setWidth_ofInt (by norm_num)]
    omega
  have type : (((serviceWord c).extractLsb' 0 8).toNat : ℤ) = if c.radio ≠ 0 then 2 else 1 := by
    rw [serviceWord_eq, BitVec.extractLsb'_or, extractLsb'_shiftLeft_below _ (by norm_num),
      BitVec.zero_or]
    split
    · rfl
    · rfl
  rw [readService, serviceEntry, service, type]

private theorem upper_lcnWord :
    (lcnWord c).extractLsb' 16 16 =
      (BitVec.ofInt 32 c.lcn).extractLsb' 16 16 ||| (BitVec.ofInt 32 c.serviceId).setWidth 16 := by
  have flag : ((if c.lcnVisible ≠ 0 then 0x01#32 else 0x00#32) <<< 15).extractLsb' 16 16 =
      0#16 := by
    split
    · rfl
    · rfl
  have mask : (~~~0xc000#32).extractLsb' 16 16 = BitVec.allOnes 16 := rfl
  rw [lcnWord_eq, BitVec.extractLsb'_or, BitVec.extractLsb'_or, flag, BitVec.or_zero,
    extractLsb'_shiftLeft _ (by norm_num), BitVec.extractLsb'_and, mask, BitVec.and_allOnes,
    BitVec.or_comm]

private theorem visible_lcnWord : (lcnWord c).getLsbD 15 = decide (c.lcnVisible ≠ 0) := by
  have mask : (~~~0xc000#32).getLsbD 15 = false := rfl
  rw [lcnWord_eq, BitVec.getLsbD_or, BitVec.getLsbD_or, BitVec.getLsbD_and, mask, Bool.and_false,
    Bool.or_false, BitVec.getLsbD_shiftLeft]
  by_cases shown : c.lcnVisible ≠ 0
  · simp [shown]
  · simp [shown]

private theorem number_lcnWord : ((lcnWord c).extractLsb' 0 14).toNat = c.lcn % 2 ^ 14 := by
  have flag : ((if c.lcnVisible ≠ 0 then 0x01#32 else 0x00#32) <<< 15).extractLsb' 0 14 = 0#14 :=
    extractLsb'_shiftLeft_below _ (by norm_num)
  have mask : (~~~0xc000#32).extractLsb' 0 14 = BitVec.allOnes 14 := rfl
  rw [lcnWord_eq, BitVec.extractLsb'_or, BitVec.extractLsb'_or, flag,
    extractLsb'_shiftLeft_below _ (by norm_num), BitVec.extractLsb'_and, mask, BitVec.and_allOnes,
    BitVec.zero_or, BitVec.zero_or, ← BitVec.setWidth_eq_extractLsb' (by norm_num)]
  exact toNat_setWidth_ofInt (by norm_num) c.lcn

end words

private theorem fits_of_small {c : Channel} (low : 0 ≤ c.lcn) (high : c.lcn < 2 ^ 16) : Fits c := by
  have nothing : (BitVec.ofInt 32 c.lcn).extractLsb' 16 16 = 0#16 := by
    apply BitVec.eq_of_toNat_eq
    rw [BitVec.extractLsb'_toNat, BitVec.toNat_ofInt, Nat.shiftRight_eq_div_pow]
    simp only [BitVec.toNat_ofNat]
    omega
  rw [Fits, nothing]
  exact zero_within _

private theorem readLcn_lcnWord_iff {c : Channel} (low : 0 ≤ c.serviceId)
    (high : c.serviceId ≤ 65535) :
    readLcn (lcnWord c) = lcnEntry c ↔ Fits c := by
  have service : (((BitVec.ofInt 32 c.serviceId).setWidth 16).toNat : ℤ) = c.serviceId := by
    rw [toNat_setWidth_ofInt (by norm_num)]
    omega
  rw [readLcn, lcnEntry, visible_lcnWord, number_lcnWord, upper_lcnWord, Fits, Within,
    LcnEntry.mk.injEq]
  constructor
  · rintro ⟨same, -⟩
    exact BitVec.eq_of_toNat_eq (Int.ofNat_inj.mp (same.trans service.symm))
  · intro fits
    exact ⟨by rw [fits, service], rfl, rfl⟩

/-- `lcn_services`. -/
def lcnServices (conf : NitConf) : List (BitVec 32) := conf.channels.map lcnWord

/-- `svc_services`, or `services` without channel numbers. -/
def svcServices (conf : NitConf) : List (BitVec 32) := conf.channels.map serviceWord

section installed

/-- A NIT as the lists of words that it was given: the channel numbers and the services. -/
def wordsLib : NitLib where
  TsNit := List (BitVec 32) × List (BitVec 32)
  allocInit _ := ([], [])
  addNetworkNameDescriptor t _ := t
  addFrequencyListDescriptorCable t _ _ _ := t
  addCableDeliveryDescriptor t _ _ _ _ _ := t
  addServiceListDescriptor t _ _ services := (t.1, t.2 ++ services)
  addStreamDescriptors t _ _ _ _ _ lcns services := (t.1 ++ lcns, t.2 ++ services)

variable {conf : NitConf} {t t' : wordsLib.TsNit}

private theorem words_addCable {nit : List (Option Nit)}
    (done : nit.foldlM (addCable wordsLib conf) t = .ok t') : t' = t := by
  induction nit with
  | nil => exact (Except.ok.inj done).symm
  | cons lc rest ih =>
      cases lc with
      | none => cases done
      | some n => exact ih done

private theorem words_initPlain (done : initPlain wordsLib conf t = .ok t') :
    t' = (t.1, t.2 ++ if conf.nit.length < 64 then svcServices conf else []) := by
  rw [initPlain] at done
  split at done
  · rename_i few
    obtain ⟨freqs, -, after⟩ := of_bind_ok done
    obtain ⟨u, cabled, last⟩ := of_bind_ok after
    rw [if_pos few, ← Except.ok.inj last, words_addCable cabled]
    rfl
  · rename_i many
    rw [if_neg many, List.append_nil]
    exact (Except.ok.inj done).symm

private theorem words_initLcn {behind : List Char}
    (done : initLcn wordsLib conf behind t = .ok t') :
    t' = (t.1 ++ lcnServices conf, t.2 ++ svcServices conf) := by
  rw [initLcn] at done
  obtain ⟨found, -, made⟩ := of_bind_ok done
  obtain ⟨tsNdata, -, entry⟩ := of_bind_ok made
  obtain ⟨n, -, last⟩ := of_bind_ok entry
  dsimp only at last
  split at last
  · exact words_addCable last
  · exact (Except.ok.inj last).symm

/-- These are the words in a NIT that is installed. -/
theorem words_installed {behind : List Char} {now : ℤ} {o o' : NitOutput wordsLib}
    (done : outputPsiInitNit wordsLib conf behind now o = .ok o') :
    o'.nit = some (if conf.useLcn then (lcnServices conf, svcServices conf)
      else ([], if conf.nit.length < 64 then svcServices conf else [])) := by
  rw [outputPsiInitNit] at done
  dsimp only at done
  cases lcn : conf.useLcn with
  | true =>
      rw [lcn, if_pos rfl] at done
      obtain ⟨nit, made, last⟩ := of_bind_ok done
      rw [← Except.ok.inj last, words_initLcn made]
      rfl
  | false =>
      rw [lcn, if_neg (by decide)] at done
      obtain ⟨nit, made, last⟩ := of_bind_ok done
      rw [← Except.ok.inj last, words_initPlain made]
      rfl

end installed

/-- For every list of channels with service ids of sixteen bits: the lists of words say, in the
order of the channels, which service has which number and is visible, and which service is of which
type, and no number changes the service or the visibility of its channel, if and only if the upper
half of no number adds a bit to the service id. -/
theorem words_readable_iff (conf : NitConf)
    (ids : ∀ c ∈ conf.channels, 1 ≤ c.serviceId ∧ c.serviceId ≤ 65535) :
    ((lcnServices conf).map readLcn = conf.channels.map lcnEntry ∧
        (svcServices conf).map readService = conf.channels.map serviceEntry ∧
        ∀ c ∈ conf.channels,
          (readLcn (lcnWord c)).serviceId = (readLcn (lcnWord { c with lcn := 0 })).serviceId ∧
            (readLcn (lcnWord c)).visible = (readLcn (lcnWord { c with lcn := 0 })).visible) ↔
      ∀ c ∈ conf.channels, Fits c := by
  rw [lcnServices, svcServices, List.map_map, List.map_map, List.map_inj_left, List.map_inj_left]
  have readable : ∀ c : Channel, 1 ≤ c.serviceId ∧ c.serviceId ≤ 65535 →
      (readLcn (lcnWord c) = lcnEntry c ↔ Fits c) :=
    fun c id => readLcn_lcnWord_iff (by omega) id.2
  constructor
  · rintro ⟨numbers, -⟩ c member
    exact (readable c (ids c member)).mp (numbers c member)
  · intro fits
    refine ⟨?_, ?_, ?_⟩
    · intro c member
      exact (readable c (ids c member)).mpr (fits c member)
    · intro c member
      obtain ⟨low, high⟩ := ids c member
      exact readService_serviceWord c (by omega) high
    · intro c member
      have id := ids c member
      rw [(readable c id).mpr (fits c member),
        (readable { c with lcn := 0 } id).mpr (fits_of_small le_rfl (by norm_num))]
      exact ⟨rfl, rfl⟩

/-- A television and a radio channel with their numbers. -/
def sampleConf : NitConf where
  networkId := 1
  networkName := none
  transportStreamId := 1
  useLcn := true
  nit := []
  channels :=
    [{ sampleChannel 1 0 with lcn := 2 }, { sampleChannel 2 0 with lcn := 201, radio := 1 }]

theorem words_readable_iff_two_channels :
    ((lcnServices sampleConf).map readLcn = sampleConf.channels.map lcnEntry ∧
        (svcServices sampleConf).map readService = sampleConf.channels.map serviceEntry ∧
        ∀ c ∈ sampleConf.channels,
          (readLcn (lcnWord c)).serviceId = (readLcn (lcnWord { c with lcn := 0 })).serviceId ∧
            (readLcn (lcnWord c)).visible = (readLcn (lcnWord { c with lcn := 0 })).visible) ↔
      ∀ c ∈ sampleConf.channels, Fits c :=
  words_readable_iff sampleConf (by decide)

/-- A number of eighteen bits is accepted, and turns the service 1 into the service 3. -/
theorem large_number_changes_service :
    (loadSections (oneSection [("channel1:source1", "udp://239.0.0.1:5000/"),
        ("channel1:lcn", "131073")]) [1]).map (fun channels => channels.map
          fun c => (c.channel.serviceId, readLcn (lcnWord c.channel))) =
      some [(1, ⟨3, false, 1⟩)] := by
  decide +kernel

end Mptsd.Transponders.Words
