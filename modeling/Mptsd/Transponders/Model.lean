/- Unit: Mptsd/Transponders/Model
   source: src/data.c (nit_new), src/data.h (NIT), src/config.c (config_load_global,
   config_load_nit, config_load), src/output_psi.c (output_psi_init_nit)
   digest: The transponders of the network as the files give them, and the NIT made of them. -/

import Mptsd.Reload.Load

set_option autoImplicit false
set_option relaxedAutoImplicit false

namespace Mptsd.Transponders.Model

open Mptsd.Channels (Channel)
open Mptsd.Ini
open Mptsd.Reload.Load (parseChannels)

/-- What the program does not survive. -/
inductive Fault
  | nullString
  | nullNit
  | nullInChannels
  deriving DecidableEq

/-- The characters of a string are its bytes. The numbers are `_freq`, `_modulation` and
`_symbol_rate`. -/
structure Nit where
  freq : String
  modulation : String
  symbolRate : String
  tsId : ℕ
  freqCode : ℕ
  modulationCode : ℕ
  symbolRateCode : ℕ

/-- `tmp`, with the digits of a string of at most nine characters. -/
def digitBuffer (s : String) : List Char :=
  let digits := s.toList.filter Char.isDigit
  digits ++ List.replicate (9 - digits.length) '\x00'

/-- `strtol(tmp, NULL, 16)`, as the `uint32_t` it is stored in. It reads on in `behind`, what lies
behind `tmp`, when the buffer holds no terminator. -/
def strtol16 (tmp behind : List Char) : ℕ :=
  min (2 ^ 63 - 1) (readDigits 16 0 (tmp ++ behind)) % 2 ^ 32

def modulationCode (mod : String) : ℕ :=
  if mod = "16-QAM" then 0x01
  else if mod = "32-QAM" then 0x02
  else if mod = "64-QAM" then 0x03
  else if mod = "128-QAM" then 0x04
  else if mod = "256-QAM" then 0x05
  else 0x00

/-- Passing a pointer to a function of the C library that reads the string behind it. -/
def readString : Option String → Except Fault String
  | none => .error .nullString
  | some s => .ok s

/-- Following a pointer to a `NIT`. -/
def deref : Option Nit → Except Fault Nit
  | none => .error .nullNit
  | some n => .ok n

/-- The null pointer is returned for lengths other than nine and eight. -/
def nitNew (behind : List Char) (tsId : ℕ) (freq mod symbolRate : Option String) :
    Except Fault (Option Nit) := do
  let f ← readString freq
  if f.length ≠ 9 then return none
  let r ← readString symbolRate
  if r.length ≠ 8 then return none
  let m ← readString mod
  return some
    { freq := f
      modulation := m
      symbolRate := r
      tsId
      freqCode := strtol16 (digitBuffer f) behind
      modulationCode := modulationCode m
      symbolRateCode := strtol16 (digitBuffer r) behind }

/-- The part of `CONFIG` the NIT is made of. -/
structure NitConf where
  networkId : ℕ
  networkName : Option String
  transportStreamId : ℕ
  useLcn : Bool
  nit : List (Option Nit)
  channels : List Channel

/-- An `int` stored in a `uint16_t`. -/
def uint16 (x : ℤ) : ℕ := (x % 2 ^ 16).toNat

/-- `"Transponder%d:..."`. -/
def key (i : ℕ) (name : String) : String := "Transponder" ++ toString i ++ ":" ++ name

/-- One turn of the loop of `config_load_nit`. -/
def loadTransponder (behind : ℕ → List Char) (ini : Dictionary) (nit : List (Option Nit)) (i : ℕ) :
    Except Fault (List (Option Nit)) :=
  if NamesSection ini (key i "transport_stream_id") then .error .nullString
  else
    let tsId := uint16 (iniGetInt (valuesOf ini) 0 (key i "transport_stream_id"))
    match iniGetString (valuesOf ini) none (key i "frequency"),
        iniGetString (valuesOf ini) none (key i "modulation"),
        iniGetString (valuesOf ini) none (key i "symbol_rate") with
    | some freq, some mod, some sr =>
        if tsId ≠ 0 ∧ freq.length = 9 ∧ sr.length = 8 then do
          let n ← nitNew (behind i) tsId (some freq) (some mod) (some sr)
          return nit ++ [n]
        else return nit
    | _, _, _ => return nit

/-- The network name and the list of transponders. -/
def configLoadNit (behind : ℕ → List Char) (ini : Dictionary) :
    Except Fault (Option String × List (Option Nit)) := do
  let nit ← (List.range' 1 31).foldlM (loadTransponder behind ini) []
  return (iniGetString (valuesOf ini) none "Global:network_name", nit)

/-- What `config_load_global` reads as numbers. -/
def globalNumbers : List String :=
  ["Global:network_id", "Timeouts:pat", "Timeouts:pmt", "Timeouts:sdt", "Timeouts:nit",
    "Timeouts:eit", "Timeouts:tdt", "Timeouts:tot", "Timeouts:stats"]

/-- The files that `config_load` reads one after the other; a file that can't be loaded, no channel,
or a null pointer that is read through, ends the program. -/
def configLoad (behind : ℕ → List Char) (useLcn : Bool)
    (globalConf nitConf channelsConf : Option Dictionary) : Except Fault (Option NitConf) :=
  match globalConf with
  | none => return none
  | some global =>
      if globalNumbers.any (fun key => NamesSection global key) then .error .nullString
      else
        match nitConf with
        | none => return none
        | some network => do
            let (networkName, nit) ← configLoadNit behind network
            match channelsConf with
            | none => return none
            | some ini =>
                match parseChannels ini with
                | none => .error .nullInChannels
                | some file =>
                    if file.channels = [] then return none
                    else
                      return some
                        { networkId := uint16 (iniGetInt (valuesOf global) 0 "Global:network_id")
                          networkName
                          transportStreamId := uint16 file.transportStreamId
                          useLcn
                          nit
                          channels := file.channels.map fun c => c.channel }

/-- The functions of the TS library that build a NIT. A list stands for an array and its length. -/
structure NitLib where
  TsNit : Type
  allocInit : ℕ → TsNit
  addNetworkNameDescriptor : TsNit → Option String → TsNit
  addFrequencyListDescriptorCable : TsNit → ℕ → ℕ → List ℕ → TsNit
  addCableDeliveryDescriptor : TsNit → ℕ → ℕ → ℕ → ℕ → ℕ → TsNit
  addServiceListDescriptor : TsNit → ℕ → ℕ → List (BitVec 32) → TsNit
  addStreamDescriptors :
    TsNit → ℕ → ℕ → ℕ → ℕ → ℕ → List (BitVec 32) → List (BitVec 32) → TsNit

/-- The part of `OUTPUT` the function sets. -/
structure NitOutput (lib : NitLib) where
  nit : Option lib.TsNit
  nitTs : ℤ

/-- `srv` of a service list. -/
def serviceWord (c : Channel) : BitVec 32 :=
  let serviceId := BitVec.ofInt 32 c.serviceId
  (serviceId &&& ~~~0x00ff#32) <<< 8 ||| (serviceId &&& ~~~0xff00#32) <<< 8 |||
    (if c.radio ≠ 0 then 0x02#32 else 0x01#32)

/-- `srv` of the list of channel numbers. -/
def lcnWord (c : Channel) : BitVec 32 :=
  let serviceId := BitVec.ofInt 32 c.serviceId
  let lcn := BitVec.ofInt 32 c.lcn
  (serviceId &&& ~~~0x00ff#32) <<< 16 ||| (serviceId &&& ~~~0xff00#32) <<< 16 |||
    (if c.lcnVisible ≠ 0 then 0x01#32 else 0x00#32 &&& ~~~0xf0#32) <<< 15 |||
    (0x00#32 &&& ~~~0xf0#32) <<< 14 ||| (lcn &&& ~~~0xc0ff#32) ||| (lcn &&& ~~~0xff00#32)

/-- The variables of the LCN branch, set from the last transponder that was found. -/
structure Found where
  freq : Option String
  modulation : Option String
  symbolRate : Option String
  freqCode : ℕ
  modulationCode : ℕ
  symbolRateCode : ℕ

def Found.start : Found := ⟨none, none, none, 0, 0, 0⟩

section init

variable (lib : NitLib) (conf : NitConf)

/-- One turn of the loops over the transponders that describe their cable. -/
def addCable (nit : lib.TsNit) (lc : Option Nit) : Except Fault lib.TsNit := do
  let n ← deref lc
  return lib.addCableDeliveryDescriptor nit n.tsId conf.networkId n.freqCode n.modulationCode
    n.symbolRateCode

/-- One turn of the search for the transponder of the stream. -/
def findTransponder (found : Found) (lc : Option Nit) : Except Fault Found := do
  let n ← deref lc
  if n.tsId = conf.transportStreamId then
    return ⟨some n.freq, some n.modulation, some n.symbolRate, n.freqCode, n.modulationCode,
      n.symbolRateCode⟩
  else return found

/-- `!conf->use_lcn`. -/
def initPlain (nit : lib.TsNit) : Except Fault lib.TsNit :=
  if conf.nit.length < 64 then do
    let freqs ← conf.nit.mapM fun lc => Nit.freqCode <$> deref lc
    let nit := lib.addFrequencyListDescriptorCable nit conf.transportStreamId conf.networkId freqs
    let nit ← conf.nit.foldlM (addCable lib conf) nit
    return lib.addServiceListDescriptor nit conf.transportStreamId conf.networkId
      (conf.channels.map serviceWord)
  else return nit

def initLcn (behind : List Char) (nit : lib.TsNit) : Except Fault lib.TsNit := do
  let found ← conf.nit.foldlM (findTransponder conf) Found.start
  let tsNdata ← nitNew behind conf.transportStreamId found.freq found.modulation found.symbolRate
  let n ← deref tsNdata
  let nit := lib.addStreamDescriptors nit n.tsId conf.networkId found.freqCode
    found.modulationCode found.symbolRateCode (conf.channels.map lcnWord)
    (conf.channels.map serviceWord)
  if conf.nit.length < 64 then conf.nit.foldlM (addCable lib conf) nit else return nit

def outputPsiInitNit (behind : List Char) (now : ℤ) (o : NitOutput lib) :
    Except Fault (NitOutput lib) := do
  let nit := lib.addNetworkNameDescriptor (lib.allocInit conf.networkId) conf.networkName
  let nit ← if conf.useLcn then initLcn lib conf behind nit else initPlain lib conf nit
  return { o with nit := some nit, nitTs := now }

end init

end Mptsd.Transponders.Model
