import Mathlib.Data.List.Basic
import TalosP2P.FabricManager.Wrapper
import TalosP2P.Support.Python

/-!
# FabricManager — MgmtPort

The search for the NVSwitch management port, and the arguments `main` makes of it.  The wrapper keeps
the first port that qualifies and goes on through all ports, to log them.

What `sysfs` and `libibumad` answer is a parameter.  A line of the log is the message with its values.

* `scanned_devices`: the scan keeps the first port that qualifies, and logs every port it comes to.
* `findNvswitchMgmtPort_spec`: the search, with the commands that are run.
-/

namespace TalosP2P.FabricManager

open Python

structure NVSwitchMgmtPort where
  ibDevice : String
  portGUID : Nat
  deriving DecidableEq, Repr

/-- What `umad_get_port` fills in: two fields in network order, and the state. -/
structure UmadPort where
  portGuid : Vector UInt8 8
  capmask : Vector UInt8 4
  state : UInt32
  deriving DecidableEq, Repr

/-- What the wrapper asks of its host. -/
structure Host where
  /-- The names in `/sys/class/infiniband`, in order; `none` is an error. -/
  readDir : Option (List String)
  /-- `device/vpd` of a device. -/
  vpd : String → Option Bytes
  umadInit : Bool
  /-- `numports` of `umad_get_ca`. -/
  umadGetCa : String → Option Int
  umadGetPort : String → Int → Option UmadPort

/-- The messages of the search. -/
inductive Log where
  | lpfDevice (device : String)
  | caFailed (device : String)
  | ca (device : String) (numPorts : Int)
  | portFailed (device : String) (portIdx : Int)
  | port (device : String) (portIdx : Int) (portGUID capMask : Nat) (isSMDisabled : Bool)
      (portStateStr : String)
  | selected (device : String) (portGUID : Nat)
  deriving DecidableEq, Repr

/-- `binary.Read` of a number, the most significant byte first. -/
def bigEndian (bytes : Bytes) : Nat := bytes.foldl (fun n b => 256 * n + b.toNat) 0

def portStateStr (state : UInt32) : String :=
  match state with
  | 1 => "Down"
  | 2 => "Init"
  | 4 => "Active"
  | _ => "Unknown"

def UmadPort.guid (p : UmadPort) : Nat := bigEndian p.portGuid.toList

def UmadPort.capMask (p : UmadPort) : Nat := bigEndian p.capmask.toList

/-- `(capMask & IsSMDisabledMask) != 0`. -/
def UmadPort.isSMDisabled (p : UmadPort) : Bool := p.capMask &&& 0x00000400 != 0

section

variable (host : Host)

def findLpfDevices : List String :=
  (host.readDir.getD []).filter fun device =>
    match host.vpd device with
    | some vpd => encodeUtf8 "SMDL=SW_MNG" <:+: vpd
    | none => false

/-- The loop over the ports, which starts at 1. -/
def portIndexes (numPorts : Int) : List Int := (List.range numPorts.toNat).map fun i => (i + 1 : Nat)

/-- What the search has so far. -/
structure Scan where
  port : Option NVSwitchMgmtPort
  log : List Log
  deriving DecidableEq, Repr

def scanPort (device : String) (s : Scan) (portIdx : Int) : Scan :=
  match host.umadGetPort device portIdx with
  | none => { s with log := s.log ++ [.portFailed device portIdx] }
  | some p =>
    let log := s.log ++
      [.port device portIdx p.guid p.capMask p.isSMDisabled (portStateStr p.state)]
    if s.port = none ∧ p.guid ≠ 0 ∧ p.isSMDisabled = false then
      ⟨some ⟨device, p.guid⟩, log ++ [.selected device p.guid]⟩
    else ⟨s.port, log⟩

def scanDevice (s : Scan) (device : String) : Scan :=
  match host.umadGetCa device with
  | none => { s with log := s.log ++ [.caFailed device] }
  | some numPorts => (portIndexes numPorts).foldl (scanPort host device)
      { s with log := s.log ++ [.ca device numPorts] }

def findNvswitchMgmtPort : Except String NVSwitchMgmtPort × List Log :=
  let lpfDevs := findLpfDevices host
  let log := lpfDevs.map Log.lpfDevice
  if lpfDevs = [] then (.error "no NVSwitch LPF device found", log)
  else if ¬ host.umadInit then (.error "failed to initialize libibumad", log)
  else
    let s := lpfDevs.foldl (scanDevice host) ⟨none, log⟩
    match s.port with
    | none => (.error "failed to find a NVSwitch management port", s.log)
    | some port => (.ok port, s.log)

/-! ### The ports -/

/-- The ports of a device, where it can be read. -/
def devicePorts (device : String) : List (String × Int) :=
  match host.umadGetCa device with
  | none => []
  | some numPorts => (portIndexes numPorts).map fun portIdx => (device, portIdx)

/-- All ports, in the order of the devices and of their numbers. -/
def ports : List (String × Int) := (findLpfDevices host).flatMap (devicePorts host)

/-- The port, where it qualifies: it can be read, has a GUID, and `IsSMDisabled` is clear. -/
def qualifying (place : String × Int) : Option NVSwitchMgmtPort :=
  match host.umadGetPort place.1 place.2 with
  | none => none
  | some p => if p.guid ≠ 0 ∧ p.isSMDisabled = false then some ⟨place.1, p.guid⟩ else none

end

/-- The port a message is about. -/
def Log.portOf : Log → Option (String × Int)
  | .portFailed device portIdx => some (device, portIdx)
  | .port device portIdx _ _ _ _ => some (device, portIdx)
  | _ => none

/-- The ports that were logged. -/
def loggedPorts (log : List Log) : List (String × Int) := log.filterMap Log.portOf

/-! ### The scan -/

variable {host : Host}

/-- The scan has come through these ports: it has the first of them that qualifies, and has logged all
of them in order. -/
structure Scanned (host : Host) (places : List (String × Int)) (s : Scan) : Prop where
  port : s.port = places.findSome? (qualifying host)
  log : loggedPorts s.log = places

/-- Another port. -/
theorem Scanned.scanPort {places : List (String × Int)} {s : Scan} (h : Scanned host places s)
    (device : String) (portIdx : Int) :
    Scanned host (places ++ [(device, portIdx)]) (scanPort host device s portIdx) := by
  have hport : (places ++ [(device, portIdx)]).findSome? (qualifying host) =
      s.port.or (qualifying host (device, portIdx)) := by
    rw [List.findSome?_append, ← h.port, List.findSome?_singleton]
  rw [FabricManager.scanPort]
  cases hp : host.umadGetPort device portIdx with
  | none =>
      have hnone : qualifying host (device, portIdx) = none := by simp only [qualifying, hp]
      constructor
      · rw [hport, hnone, Option.or_none]
      · exact List.filterMap_append.trans (congrArg (· ++ _) h.log)
  | some p =>
      -- The port is the first one that qualifies when none was selected before.
      by_cases hq : p.guid ≠ 0 ∧ p.isSMDisabled = false
      · have hsome : qualifying host (device, portIdx) = some ⟨device, p.guid⟩ := by
          simp only [qualifying, hp, if_pos hq]
        cases hs : s.port with
        | none =>
            simp only [true_and, if_pos hq]
            constructor
            · rw [hport, hsome, hs, Option.none_or]
            · rw [loggedPorts, List.append_assoc, List.filterMap_append]
              exact congrArg (· ++ _) h.log
        | some port =>
            simp only [reduceCtorEq, false_and, if_false]
            constructor
            · rw [hport, hs, Option.some_or]
            · exact List.filterMap_append.trans (congrArg (· ++ _) h.log)
      · have hnone : qualifying host (device, portIdx) = none := by
          simp only [qualifying, hp, if_neg hq]
        simp only [if_neg fun hboth : s.port = none ∧ _ => hq hboth.2]
        constructor
        · rw [hport, hnone, Option.or_none]
        · exact List.filterMap_append.trans (congrArg (· ++ _) h.log)

theorem Scanned.foldl_scanPort {places : List (String × Int)} {s : Scan} (h : Scanned host places s)
    (device : String) (indexes : List Int) :
    Scanned host (places ++ indexes.map fun portIdx => (device, portIdx))
      (indexes.foldl (FabricManager.scanPort host device) s) := by
  induction indexes generalizing places s with
  | nil => rwa [List.map_nil, List.append_nil]
  | cons portIdx indexes ih =>
      have hnext := ih (h.scanPort device portIdx)
      rwa [List.append_assoc, List.singleton_append] at hnext

/-- Another device. -/
theorem Scanned.scanDevice {places : List (String × Int)} {s : Scan} (h : Scanned host places s)
    (device : String) :
    Scanned host (places ++ devicePorts host device) (scanDevice host s device) := by
  have hlog : ∀ message, Log.portOf message = none →
      Scanned host places { s with log := s.log ++ [message] } := fun message hmessage => by
    refine ⟨h.port, ?_⟩
    rw [loggedPorts, List.filterMap_append, List.filterMap_cons_none hmessage, List.filterMap_nil,
      List.append_nil]
    exact h.log
  rw [FabricManager.scanDevice, devicePorts]
  cases host.umadGetCa device with
  | none =>
      rw [List.append_nil]
      exact hlog _ rfl
  | some numPorts => exact (hlog (.ca device numPorts) rfl).foldl_scanPort device _

/-- **The scan** of any devices. -/
theorem scanned_devices (devices : List String) {places : List (String × Int)} {s : Scan}
    (h : Scanned host places s) : Scanned host (places ++ devices.flatMap (devicePorts host))
      (devices.foldl (FabricManager.scanDevice host) s) := by
  induction devices generalizing places s with
  | nil => rwa [List.flatMap_nil, List.append_nil]
  | cons device devices ih =>
      have hnext := ih (h.scanDevice device)
      rwa [List.append_assoc, ← List.flatMap_cons] at hnext

/-! ### What `main` makes of the port -/

def fmConfigFile : Bytes := encodeUtf8 "/usr/share/nvidia/nvswitch/fabricmanager.cfg"

def smConfigFile : Bytes := encodeUtf8 "/usr/share/nvidia/nvlsm/nvlsm.conf"

def smPidFile : Bytes := encodeUtf8 "/var/run/nvlsm.pid"

/-- `fmSmMgmtPortGUID`: empty when no port was found. -/
def fmSmMgmtPortGUID (found : Except String NVSwitchMgmtPort) : Bytes :=
  match found with
  | .ok nvswitchPort => encodeUtf8 "0x" ++ formatHex 1 nvswitchPort.portGUID
  | .error _ => []

/-- The commands `main` runs, with their arguments. -/
def commandLines (fmSmMgmtPortGUID : Bytes) : List (Command × List Bytes) :=
  let sm := if fmSmMgmtPortGUID ≠ [] then
      [(Command.nvlsm, [encodeUtf8 "--config", smConfigFile, encodeUtf8 "--guid", fmSmMgmtPortGUID,
        encodeUtf8 "--pid_file", smPidFile, encodeUtf8 "--log_file", encodeUtf8 "stdout"])]
    else []
  let fmCmdArgs := [encodeUtf8 "--config", fmConfigFile]
  sm ++ [(.fabricManager, if fmSmMgmtPortGUID ≠ [] then
    fmCmdArgs ++ [encodeUtf8 "--fm-sm-mgmt-port-guid", fmSmMgmtPortGUID] else fmCmdArgs)]

theorem bigEndian_lt (bytes : Bytes) : bigEndian bytes < 256 ^ bytes.length := by
  suffices h : ∀ n k, n < 256 ^ k →
      bytes.foldl (fun n b => 256 * n + b.toNat) n < 256 ^ (k + bytes.length) by
    have := h 0 0 (by decide)
    rwa [Nat.zero_add] at this
  induction bytes with
  | nil => exact fun n k h => h
  | cons b bytes ih =>
      intro n k h
      have hb := b.toNat_lt
      have hnext := ih (256 * n + b.toNat) (k + 1) (by rw [Nat.pow_succ]; omega)
      rwa [Nat.add_assoc, Nat.add_comm 1] at hnext

theorem guid_of_qualifying {place : String × Int} {port : NVSwitchMgmtPort}
    (h : qualifying host place = some port) : port.portGUID ≠ 0 ∧ port.portGUID < 2 ^ 64 := by
  rw [qualifying] at h
  split at h
  · cases h
  · rename_i p _
    split at h
    · rename_i hp
      cases h
      refine ⟨hp.1, ?_⟩
      have hlt := bigEndian_lt p.portGuid.toList
      rw [Vector.length_toList] at hlt
      exact hlt
    · cases h

/-- The GUID as `main` prints it reads back. -/
theorem exists_digits (port : NVSwitchMgmtPort) : ∃ digits, (∀ c ∈ digits, IsHexDigit c) ∧
    hexValue digits = port.portGUID ∧
    fmSmMgmtPortGUID (.ok port) = encodeUtf8 "0x" ++ digits := by
  refine ⟨formatHex 1 port.portGUID, ?_, ?_, rfl⟩
  · rw [formatHex, if_neg (by omega)]
    exact fixedHex_isHexDigit
  · rw [formatHex, if_neg (by omega), hexValue_fixedHex]
    · rfl
    · exact Nat.lt_pow_of_log_lt (by decide) (by omega)

/-- The search, once `libibumad` is there to ask. -/
theorem findNvswitchMgmtPort_of_init (hinit : host.umadInit) :
    (findNvswitchMgmtPort host).1.toOption = (ports host).findSome? (qualifying host) ∧
      loggedPorts (findNvswitchMgmtPort host).2 = ports host := by
  have hstart : Scanned host [] ⟨none, (findLpfDevices host).map Log.lpfDevice⟩ := by
    refine ⟨rfl, ?_⟩
    rw [loggedPorts, List.filterMap_map]
    exact List.filterMap_eq_nil_iff.mpr fun _ _ => rfl
  obtain ⟨hport, hlog⟩ := scanned_devices (findLpfDevices host) hstart
  rw [List.nil_append, ← ports] at hport hlog
  rw [findNvswitchMgmtPort]
  simp only
  split
  · rename_i hnil
    rw [ports, hnil]
    exact ⟨rfl, rfl⟩
  · rw [← hport, ← hlog]
    cases hs : (List.foldl (FabricManager.scanDevice host)
        ⟨none, (findLpfDevices host).map Log.lpfDevice⟩ (findLpfDevices host)).port with
    | none => exact ⟨rfl, rfl⟩
    | some port => exact ⟨rfl, rfl⟩

theorem findNvswitchMgmtPort_of_not_init (hinit : ¬ host.umadInit) :
    (findNvswitchMgmtPort host).1.toOption = none := by
  rw [findNvswitchMgmtPort]
  simp only
  split
  · rfl
  · rfl

theorem guid_of_found {port : NVSwitchMgmtPort} (h : (findNvswitchMgmtPort host).1 = .ok port) :
    port.portGUID ≠ 0 ∧ port.portGUID < 2 ^ 64 := by
  have hfound : (findNvswitchMgmtPort host).1.toOption = some port := by rw [h]; rfl
  by_cases hinit : host.umadInit = true
  · rw [(findNvswitchMgmtPort_of_init hinit).1] at hfound
    obtain ⟨place, -, hplace⟩ := List.exists_of_findSome?_eq_some hfound
    exact guid_of_qualifying hplace
  · rw [findNvswitchMgmtPort_of_not_init hinit] at hfound
    cases hfound

/-- **The management port.**  Where `libibumad` can be initialized, the search finds the first port
that qualifies, and none where no port does; it logs every port of every device it can read, also
behind the one it selected.  With a port NVLSM and the fabric manager run with one number, its GUID;
without one the fabric manager runs alone. -/
theorem findNvswitchMgmtPort_spec (host : Host) :
    (findNvswitchMgmtPort host).1.toOption =
      (if host.umadInit then (ports host).findSome? (qualifying host) else none) ∧
    (host.umadInit → loggedPorts (findNvswitchMgmtPort host).2 = ports host) ∧
    ((∃ port digits, (findNvswitchMgmtPort host).1 = .ok port ∧ port.portGUID ≠ 0 ∧
        port.portGUID < 2 ^ 64 ∧ (∀ c ∈ digits, IsHexDigit c) ∧ hexValue digits = port.portGUID ∧
        commandLines (fmSmMgmtPortGUID (findNvswitchMgmtPort host).1) =
          [(.nvlsm, [encodeUtf8 "--config", smConfigFile, encodeUtf8 "--guid",
              encodeUtf8 "0x" ++ digits, encodeUtf8 "--pid_file", smPidFile, encodeUtf8 "--log_file",
              encodeUtf8 "stdout"]),
            (.fabricManager, [encodeUtf8 "--config", fmConfigFile,
              encodeUtf8 "--fm-sm-mgmt-port-guid", encodeUtf8 "0x" ++ digits])]) ∨
      (∃ err, (findNvswitchMgmtPort host).1 = .error err) ∧
        commandLines (fmSmMgmtPortGUID (findNvswitchMgmtPort host).1) =
          [(.fabricManager, [encodeUtf8 "--config", fmConfigFile])]) := by
  refine ⟨?_, fun hinit => (findNvswitchMgmtPort_of_init hinit).2, ?_⟩
  · by_cases hinit : host.umadInit = true
    · rw [if_pos hinit, (findNvswitchMgmtPort_of_init hinit).1]
    · rw [if_neg hinit, findNvswitchMgmtPort_of_not_init hinit]
  · cases hfound : (findNvswitchMgmtPort host).1 with
    | error err => exact .inr ⟨⟨err, rfl⟩, rfl⟩
    | ok port =>
        obtain ⟨digits, hdigits, hvalue, hguid⟩ := exists_digits port
        obtain ⟨hne, hlt⟩ := guid_of_found hfound
        refine .inl ⟨port, digits, rfl, hne, hlt, hdigits, hvalue, ?_⟩
        have hset : encodeUtf8 "0x" ++ digits ≠ [] :=
          List.append_ne_nil_of_left_ne_nil (by decide) _
        rw [hguid, commandLines, if_pos hset, if_pos hset]
        rfl

end TalosP2P.FabricManager
