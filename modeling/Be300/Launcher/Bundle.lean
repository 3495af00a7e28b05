/-
  Be300.Launcher.Bundle — the launcher's virtual machines (`src/launcher/vm_bundle.c`): a
  directory `<name>.be300vm` with a configuration in it.

  A C string is the list of its bytes before the NUL. `cfg` has the fields that `config.json`
  keeps; its strings are pointers to the bundle's own buffers or NULL, here the text or
  nothing. What the file system answers is the parameter `Host`. Finite doubles are given by
  their values.
-/

import Mathlib.Data.Rat.Floor
import Mathlib.Tactic.Common
import Be300.Cbea.Inf
import Be300.Lib.Fields

namespace Be300.Launcher

open Be300.Cbea (ascii strtoul)
open Be300.Lib

abbrev CStr := List UInt8

/-- `BE300_VM_PATH_MAX`. -/
def pathMax : Nat := 1024
/-- `BE300_VM_NAME_MAX`. -/
def nameMax : Nat := 128
/-- `BE300_VM_BRIDGE_MAX`. -/
def bridgeMax : Nat := 256
/-- `BE300_MAX_CF_SLOTS`. -/
abbrev maxCfSlots : Nat := 2

/-- `BE300_VM_SUFFIX`. -/
def vmSuffix : CStr := ascii ".be300vm"

def slash : UInt8 := 0x2F

/-- What `snprintf(buf, cap, "%s", s)` leaves in an array of `cap` bytes. -/
def snprintf (cap : Nat) (s : CStr) : CStr := s.take (cap - 1)

inductive Dock
  | rs232
  | usbSync
  deriving DecidableEq

/-- The fields of `machine_config_t` that `config.json` keeps. -/
structure MachineConfig where
  trace : Bool
  logMmio : Bool
  logNandLegacy : Bool
  enablePpsh : Bool
  enableRtcHostTime : Bool
  enableStowawayKeyboard : Bool
  enableNe2000 : Bool
  enableXi825 : Bool
  enableWl54cf : Bool
  enableAudio : Bool
  restore : Bool
  mmioCoverage : Bool
  detectStall : Bool
  frameVisible : Bool
  sdramSize : UInt32
  targetMhz : UInt32
  fbWidth : UInt32
  fbHeight : UInt32
  fbStride : UInt32
  stallWindow : UInt32
  stallUniqueThreshold : UInt32
  stallWallSecs : UInt32
  scale : ℚ
  pcconnectBaud : UInt32
  serial0Baud : UInt32
  serial1Baud : UInt32
  pcconnectDock : Dock
  nandPath : Option CStr
  romPath : Option CStr
  pcconnectBridge : Option CStr
  pcconnectTee : Option CStr
  serial0Bridge : Option CStr
  serial0Tee : Option CStr
  serial1Bridge : Option CStr
  serial1Tee : Option CStr
  cfPaths : Fin maxCfSlots → Option CStr
  cfCount : Nat
  netMac : Vector UInt8 6
  netMacSet : Bool

structure Bundle where
  path : CStr
  name : CStr
  cfg : MachineConfig
  nandPathBuf : CStr
  cfPathBuf : Fin maxCfSlots → CStr
  romPathBuf : CStr
  pcconnectBridgeBuf : CStr
  pcconnectTeeBuf : CStr
  serial0BridgeBuf : CStr
  serial0TeeBuf : CStr
  serial1BridgeBuf : CStr
  serial1TeeBuf : CStr

inductive Errno
  | einval
  | enametoolong
  | enoent
  | eexist
  /-- Whatever the operating system says. -/
  | system
  deriving DecidableEq

/-- The system the launcher is built for, and its file system as one call meets it. -/
structure Host where
  windows : Bool
  /-- `vm_bundle_root_dir`. -/
  rootDir : Option CStr
  /-- `path_exists_dir`. -/
  isDir : CStr → Bool
  /-- `vm_bundle_mkdir_p` succeeds. -/
  mkdirP : CStr → Bool
  rename : CStr → CStr → Bool
  copyFile : CStr → CStr → Bool
  /-- `vm_config_save` writes the file. -/
  writeFile : CStr → Bool

/-- `BE300_PATH_SEP`. -/
def pathSep (windows : Bool) : UInt8 := if windows then 0x5C else slash

def Host.sep (host : Host) : UInt8 := pathSep host.windows

/-! ## The configuration -/

/-- `vm_config_apply_defaults`, on a configuration of zeros. -/
def applyDefaults : MachineConfig where
  trace := false
  logMmio := false
  logNandLegacy := false
  enablePpsh := false
  enableRtcHostTime := false
  enableStowawayKeyboard := false
  enableNe2000 := false
  enableXi825 := false
  enableWl54cf := false
  enableAudio := false
  restore := false
  mmioCoverage := false
  detectStall := false
  frameVisible := false
  sdramSize := 16 * 1024 * 1024
  targetMhz := 0
  fbWidth := 0
  fbHeight := 0
  fbStride := 0
  stallWindow := 10000
  stallUniqueThreshold := 64
  stallWallSecs := 5
  scale := 1
  pcconnectBaud := 115200
  serial0Baud := 115200
  serial1Baud := 115200
  pcconnectDock := .rs232
  nandPath := none
  romPath := none
  pcconnectBridge := none
  pcconnectTee := none
  serial0Bridge := none
  serial0Tee := none
  serial1Bridge := none
  serial1Tee := none
  cfPaths := fun _ => none
  cfCount := 0
  netMac := Vector.replicate 6 0
  netMacSet := false

/-- A buffer, or NULL for an empty one. -/
def bound (buf : CStr) : Option CStr := if buf = [] then none else some buf

def rebindStrings (vm : Bundle) : Bundle :=
  { vm with cfg := { vm.cfg with
      nandPath := bound vm.nandPathBuf
      romPath := bound vm.romPathBuf
      cfPaths := fun s => bound (vm.cfPathBuf s)
      pcconnectBridge := bound vm.pcconnectBridgeBuf
      pcconnectTee := bound vm.pcconnectTeeBuf
      serial0Bridge := bound vm.serial0BridgeBuf
      serial0Tee := bound vm.serial0TeeBuf
      serial1Bridge := bound vm.serial1BridgeBuf
      serial1Tee := bound vm.serial1TeeBuf } }

/-! ## The configuration file -/

/-- A cJSON item. Null and objects within the object are `other`. -/
inductive Json
  | bool (b : Bool)
  | number (valuedouble : ℚ)
  | string (valuestring : CStr)
  | array (items : List Json)
  | other

abbrev JsonObject := List (String × Json)

/-- `cJSON_GetObjectItemCaseSensitive`. -/
def getObjectItem (obj : JsonObject) (key : String) : Option Json := obj.lookup key

def dockToString : Dock → CStr
  | .usbSync => ascii "usb-sync"
  | .rs232 => ascii "rs232"

def stringToDock : Option CStr → Dock
  | some s => if s = ascii "usb-sync" ∨ s = ascii "usb-vcom" then .usbSync else .rs232
  | none => .rs232

def hexDigit (n : Nat) : UInt8 := UInt8.ofNat (if n < 10 then 0x30 + n else 0x57 + n)

/-- `%02x`. -/
def hexByte (b : UInt8) : CStr := [hexDigit (b.toNat / 16), hexDigit (b.toNat % 16)]

def colon : UInt8 := 0x3A

def macToString (mac : Vector UInt8 6) : CStr :=
  List.intercalate [colon] (mac.toList.map hexByte)

/-- The fields of a string that `sscanf` reads with `%x`, `n` of them between colons, where nothing follows them. -/
def scanFields : Nat → CStr → Option (List Nat)
  | 0, _ => none
  | n + 1, s =>
    match Cbea.scanHex s with
    | none => none
    | some _ =>
      -- an `unsigned` keeps the low 32 bits of the `unsigned long` that was read
      let (v, rest) := strtoul 64 s
      if n = 0 then if rest = [] then some [v % 2 ^ 32] else none
      else
        match rest with
        | b :: rest => if b = colon then (scanFields n rest).map (v % 2 ^ 32 :: ·) else none
        | [] => none

/-- The loop of `parse_mac_str`: the bytes before a number that is too large are stored. -/
def storeMac (mac : Vector UInt8 6) : Nat → List Nat → Bool × Vector UInt8 6
  | _, [] => (true, mac)
  | i, v :: vs => if 0xFF < v then (false, mac) else storeMac (mac.setIfInBounds i (UInt8.ofNat v)) (i + 1) vs

def parseMacStr (s : CStr) (mac : Vector UInt8 6) : Bool × Vector UInt8 6 :=
  match scanFields 6 s with
  | none => (false, mac)
  | some v => storeMac mac 0 v

def copyStringField (cap : Nat) (obj : JsonObject) (key : String) : CStr :=
  match getObjectItem obj key with
  | some (.string s) => snprintf cap s
  | _ => []

def getBool (obj : JsonObject) (key : String) (dflt : Bool) : Bool :=
  match getObjectItem obj key with
  | some (.bool b) => b
  | _ => dflt

def getNumber (obj : JsonObject) (key : String) (dflt : ℚ) : ℚ :=
  match getObjectItem obj key with
  | some (.number q) => q
  | _ => dflt

def getString (obj : JsonObject) (key : String) : Option CStr :=
  match getObjectItem obj key with
  | some (.string s) => some s
  | _ => none

/-- The value of a `uint32_t` as a double, which holds it exactly. -/
def double (n : UInt32) : ℚ := n.toNat

/-- `(uint32_t)` of a double in its range: the fraction is dropped. -/
def uint32 (q : ℚ) : UInt32 := UInt32.ofNat ⌊q⌋.toNat

def setSlot (buf : Fin maxCfSlots → CStr) (i : Nat) (s : CStr) : Fin maxCfSlots → CStr :=
  fun j => if j.val = i then s else buf j

/-- The loop over the entries of `cf_paths`, from slot `i` on. -/
def loadSlots : Nat → List Json → (Fin maxCfSlots → CStr) → Nat → (Fin maxCfSlots → CStr) × Nat
  | _, [], buf, count => (buf, count)
  | i, e :: rest, buf, count =>
    match e with
    | .string s =>
      if s = [] then loadSlots (i + 1) rest (setSlot buf i []) count
      else loadSlots (i + 1) rest (setSlot buf i (snprintf pathMax s)) (i + 1)
    | _ => loadSlots (i + 1) rest (setSlot buf i []) count

def loadPaths (vm : Bundle) (root : JsonObject) : (Fin maxCfSlots → CStr) × Nat :=
  match getObjectItem root "cf_paths" with
  | some (.array items) => loadSlots 0 (items.take maxCfSlots) vm.cfPathBuf 0
  | _ => (vm.cfPathBuf, 0)

/-- The MAC address that is loaded, and whether there is one. -/
def loadMac (root : JsonObject) : Bool × Vector UInt8 6 :=
  match getString root "net_mac" with
  | some s => parseMacStr s applyDefaults.netMac
  | none => (false, applyDefaults.netMac)

/-- `config.json` as it is found. -/
inductive ConfigFile
  | missing
  /-- It cannot be read, or is no JSON. -/
  | broken (e : Errno)
  /-- The root object. A root of another kind has no items. -/
  | root (obj : JsonObject)

/-- What `vm_config_load` makes of a root object. -/
def loadRoot (root : JsonObject) (vm : Bundle) : Bundle :=
  let c := applyDefaults
  let (cfPathBuf, cfCount) := loadPaths vm root
  let (netMacSet, netMac) := loadMac root
  rebindStrings { vm with
    cfg := { c with
      trace := getBool root "trace" false
      logMmio := getBool root "log_mmio" false
      logNandLegacy := getBool root "log_nand_legacy" false
      enablePpsh := getBool root "enable_ppsh" false
      enableRtcHostTime := getBool root "enable_rtc_host_time" false
      enableStowawayKeyboard := getBool root "enable_stowaway_keyboard" false
      enableNe2000 := getBool root "enable_ne2000" false
      enableXi825 := getBool root "enable_xi825" false
      enableWl54cf := getBool root "enable_wl54cf" false
      enableAudio := getBool root "enable_audio" false
      restore := getBool root "restore" false
      mmioCoverage := getBool root "mmio_coverage" false
      detectStall := getBool root "detect_stall" false
      frameVisible := getBool root "frame_visible" false
      sdramSize := uint32 (getNumber root "sdram_size" (double c.sdramSize))
      targetMhz := uint32 (getNumber root "target_mhz" (double c.targetMhz))
      fbWidth := uint32 (getNumber root "fb_width" 0)
      fbHeight := uint32 (getNumber root "fb_height" 0)
      fbStride := uint32 (getNumber root "fb_stride" 0)
      stallWindow := uint32 (getNumber root "stall_window" (double c.stallWindow))
      stallUniqueThreshold := uint32 (getNumber root "stall_unique_threshold" (double c.stallUniqueThreshold))
      stallWallSecs := uint32 (getNumber root "stall_wall_secs" (double c.stallWallSecs))
      scale := getNumber root "scale" c.scale
      pcconnectBaud := uint32 (getNumber root "pcconnect_baud" (double c.pcconnectBaud))
      serial0Baud := uint32 (getNumber root "serial0_baud" (double c.serial0Baud))
      serial1Baud := uint32 (getNumber root "serial1_baud" (double c.serial1Baud))
      pcconnectDock := stringToDock (getString root "pcconnect_dock")
      cfCount, netMac, netMacSet }
    nandPathBuf := copyStringField pathMax root "nand_path"
    romPathBuf := copyStringField pathMax root "rom_path"
    pcconnectBridgeBuf := copyStringField bridgeMax root "pcconnect_bridge"
    pcconnectTeeBuf := copyStringField pathMax root "pcconnect_tee"
    serial0BridgeBuf := copyStringField bridgeMax root "serial0_bridge"
    serial0TeeBuf := copyStringField pathMax root "serial0_tee"
    serial1BridgeBuf := copyStringField bridgeMax root "serial1_bridge"
    serial1TeeBuf := copyStringField pathMax root "serial1_tee"
    cfPathBuf }

def vmConfigLoad (file : ConfigFile) (vm : Bundle) : Except Errno Bundle :=
  match file with
  | .missing => .ok (rebindStrings { vm with cfg := applyDefaults })
  | .broken e => .error e
  | .root obj => .ok (loadRoot obj vm)

/-- `BE300_VM_CONFIG_SCHEMA`. -/
def vmConfigSchema : ℚ := 1

/-- The items that `vm_config_save` adds, in order; those that are not added have none. -/
def configFields (c : MachineConfig) : List (String × Option Json) :=
  [("schema", some (.number vmConfigSchema)),
   ("trace", some (.bool c.trace)),
   ("log_mmio", some (.bool c.logMmio)),
   ("log_nand_legacy", some (.bool c.logNandLegacy)),
   ("enable_ppsh", some (.bool c.enablePpsh)),
   ("enable_rtc_host_time", some (.bool c.enableRtcHostTime)),
   ("enable_stowaway_keyboard", some (.bool c.enableStowawayKeyboard)),
   ("enable_ne2000", some (.bool c.enableNe2000)),
   ("enable_xi825", some (.bool c.enableXi825)),
   ("enable_wl54cf", some (.bool c.enableWl54cf)),
   ("enable_audio", some (.bool c.enableAudio)),
   ("restore", some (.bool c.restore)),
   ("mmio_coverage", some (.bool c.mmioCoverage)),
   ("detect_stall", some (.bool c.detectStall)),
   ("frame_visible", some (.bool c.frameVisible)),
   ("sdram_size", some (.number (double c.sdramSize))),
   ("target_mhz", some (.number (double c.targetMhz))),
   ("fb_width", some (.number (double c.fbWidth))),
   ("fb_height", some (.number (double c.fbHeight))),
   ("fb_stride", some (.number (double c.fbStride))),
   ("stall_window", some (.number (double c.stallWindow))),
   ("stall_unique_threshold", some (.number (double c.stallUniqueThreshold))),
   ("stall_wall_secs", some (.number (double c.stallWallSecs))),
   ("scale", some (.number c.scale)),
   ("pcconnect_baud", some (.number (double c.pcconnectBaud))),
   ("serial0_baud", some (.number (double c.serial0Baud))),
   ("serial1_baud", some (.number (double c.serial1Baud))),
   ("pcconnect_dock", some (.string (dockToString c.pcconnectDock))),
   ("nand_path", c.nandPath.map .string),
   ("rom_path", c.romPath.map .string),
   ("pcconnect_bridge", c.pcconnectBridge.map .string),
   ("pcconnect_tee", c.pcconnectTee.map .string),
   ("serial0_bridge", c.serial0Bridge.map .string),
   ("serial0_tee", c.serial0Tee.map .string),
   ("serial1_bridge", c.serial1Bridge.map .string),
   ("serial1_tee", c.serial1Tee.map .string),
   ("cf_paths", some (.array (((List.ofFn c.cfPaths).take c.cfCount).map fun p => .string (p.getD [])))),
   ("net_mac", if c.netMacSet then some (.string (macToString c.netMac)) else none)]

/-- The root object that `vm_config_save` prints. -/
def vmConfigSave (c : MachineConfig) : JsonObject := written (configFields c)

/-! ## Bundles -/

/-- A bundle of zeros, but for the path and the name that `load_bundle_at` gives it. -/
def zeroed (path name : CStr) : Bundle where
  path := path
  name := name
  cfg := applyDefaults
  nandPathBuf := []
  cfPathBuf := fun _ => []
  romPathBuf := []
  pcconnectBridgeBuf := []
  pcconnectTeeBuf := []
  serial0BridgeBuf := []
  serial0TeeBuf := []
  serial1BridgeBuf := []
  serial1TeeBuf := []

def isSep (sep b : UInt8) : Bool := b == slash || b == sep

/-- A path without a separator at its end. -/
def stripSlash (sep : UInt8) (path : CStr) : CStr :=
  match path.getLast? with
  | some b => if isSep sep b then path.dropLast else path
  | none => path

def baseName (sep : UInt8) (path : CStr) : CStr :=
  (path.reverse.takeWhile fun b => !isSep sep b).reverse

/-- The display name of a bundle directory. -/
def bundleName (sep : UInt8) (path : CStr) : CStr :=
  let base := baseName sep path
  if vmSuffix.length < base.length ∧ vmSuffix <:+ base then (base.take (base.length - vmSuffix.length)).take (nameMax - 1)
  else base.take (nameMax - 1)

/-- `<path>/<name>`, in an array of `BE300_VM_PATH_MAX` bytes. -/
def inside (sep : UInt8) (path name : CStr) : CStr := snprintf pathMax (path ++ [sep] ++ name)

def configPath (sep : UInt8) (path : CStr) : CStr := inside sep path (ascii "config.json")

/-- `files` is what is found at a path. -/
def loadBundleAt (sep : UInt8) (files : CStr → ConfigFile) (bundlePath : CStr) : Except Errno Bundle :=
  if pathMax ≤ bundlePath.length then .error .enametoolong
  else
    let path := stripSlash sep bundlePath
    match vmConfigLoad (files (configPath sep path)) (zeroed path (bundleName sep path)) with
    | .error e => .error e
    | .ok vm => .ok (rebindStrings vm)

def forbidden (b : UInt8) : Bool :=
  b < 0x20 || b == slash || b == 0x5C || b == colon || b == 0x2A || b == 0x3F || b == 0x22 || b == 0x3C || b == 0x3E ||
    b == 0x7C || b == 0x7F

def sanitizeName (src : CStr) : Except Errno CStr :=
  let clean := (src.filter fun b => !forbidden b).take (nameMax - 1)
  if src = [] ∨ clean = [] then .error .einval else .ok clean

/-- `<root>/<clean>.be300vm`. -/
def bundlePath (sep : UInt8) (root clean : CStr) : CStr := snprintf pathMax (root ++ [sep] ++ clean ++ vmSuffix)

/-- What is written where, or that the write failed. -/
def vmBundleSave (host : Host) (vm : Bundle) : Except Errno (CStr × JsonObject) :=
  let path := configPath host.sep vm.path
  if host.writeFile path then .ok (path, vmConfigSave vm.cfg) else .error .system

def vmBundleCreate (host : Host) (name : CStr) : Except Errno (Bundle × (CStr × JsonObject)) :=
  match host.rootDir with
  | none => .error .enoent
  | some root =>
    if !host.mkdirP root then .error .system
    else
      match sanitizeName name with
      | .error e => .error e
      | .ok clean =>
        let path := bundlePath host.sep root clean
        if host.isDir path then .error .eexist
        else if !host.mkdirP path then .error .system
        else
          let vm := rebindStrings (zeroed path (snprintf nameMax clean))
          match vmBundleSave host vm with
          | .error e => .error e
          | .ok file => .ok (vm, file)

/-- The result, and the bundle after it: a copy that fails leaves an empty buffer. -/
def vmBundleImportNand (host : Host) (vm : Bundle) (src : CStr) : Except Errno (CStr × JsonObject) × Bundle :=
  let vm := { vm with nandPathBuf := inside host.sep vm.path (ascii "nand.bin") }
  if !host.copyFile src vm.nandPathBuf then (.error .system, rebindStrings { vm with nandPathBuf := [] })
  else
    let vm := rebindStrings vm
    (vmBundleSave host vm, vm)

def cfName (slot : Nat) : CStr := ascii "cf" ++ ascii (toString slot) ++ ascii ".bin"

def vmBundleImportCf (host : Host) (vm : Bundle) (slot : Nat) (src : CStr) : Except Errno (CStr × JsonObject) × Bundle :=
  if maxCfSlots ≤ slot then (.error .einval, vm)
  else
    let path := inside host.sep vm.path (cfName slot)
    if !host.copyFile src path then (.error .system, rebindStrings { vm with cfPathBuf := setSlot vm.cfPathBuf slot [] })
    else
      let vm := { vm with cfPathBuf := setSlot vm.cfPathBuf slot path }
      let vm := if vm.cfg.cfCount ≤ slot then { vm with cfg := { vm.cfg with cfCount := slot + 1 } } else vm
      let vm := rebindStrings vm
      (vmBundleSave host vm, vm)

def rebaseOwnedPath (cap : Nat) (buf oldPrefix newPrefix : CStr) : CStr :=
  if buf = [] then buf
  else if oldPrefix.isPrefixOf buf then snprintf cap (snprintf pathMax (newPrefix ++ buf.drop oldPrefix.length))
  else buf

/-- The paths and the name after the directory has been renamed. -/
def rebased (vm : Bundle) (clean newPath : CStr) : Bundle :=
  let oldPath := snprintf pathMax vm.path
  let rebase := fun buf => rebaseOwnedPath pathMax buf oldPath newPath
  rebindStrings { vm with
    name := snprintf nameMax clean
    path := snprintf pathMax newPath
    nandPathBuf := rebase vm.nandPathBuf
    romPathBuf := rebase vm.romPathBuf
    cfPathBuf := fun s => rebase (vm.cfPathBuf s)
    pcconnectTeeBuf := rebase vm.pcconnectTeeBuf
    serial0TeeBuf := rebase vm.serial0TeeBuf
    serial1TeeBuf := rebase vm.serial1TeeBuf }

def vmBundleRename (host : Host) (vm : Bundle) (newName : CStr) : Except Errno Bundle :=
  match sanitizeName newName with
  | .error e => .error e
  | .ok clean =>
    if clean = vm.name then .ok vm
    else
      match host.rootDir with
      | none => .error .enoent
      | some root =>
        let newPath := bundlePath host.sep root clean
        if host.isDir newPath then .error .eexist
        else if !host.rename vm.path newPath then .error .system
        else .ok (rebased vm clean newPath)

end Be300.Launcher
