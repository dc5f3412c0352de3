import Mathlib.Logic.Function.Basic
import Xsky.Kit.Objects
import Xsky.Server.Dispatch

/-!
# Server.Limits

`load_config` of `server/main.c`, with the map it fills.

The records come from a header the repository does not have, and so does the hash map. `Formats`
stands for the first: their sizes, and the fields `load_config` reads of their bytes. A hash map is
a handle of an object that gives each key its value. `none` is a call on a map that has been freed,
or a name that does not fit into `url`.

`installed_iff`: the configuration of a message is the one installed if and only if it lists
nothing. Whatever is listed goes into the old map, which is then freed.
-/

namespace Xsky
namespace Server

open Kit

structure Formats where
  configSize : Nat
  macSize : Nat
  domainSize : Nat
  macs : List Byte → Nat
  domains : List Byte → Nat
  /-- `mac.mac.mac` -/
  mac : List Byte → List Byte
  macType : List Byte → Nat
  strlen : List Byte → Nat
  domainType : List Byte → Nat

/-- The values of a hash map are pointers, of which only the number counts. -/
abbrev HashMap := List Byte → Option Nat

def HashMap.empty : HashMap := fun _ => none

def HashMap.insert (map : HashMap) (key : List Byte) (value : Nat) : HashMap :=
  Function.update map key (some value)

/-- What `load_config` changes of `_device`, with all hash maps there are. -/
structure LimitDevice where
  config : List Byte
  limitMap : Nat
  maps : Objects HashMap

def insertHashMap (maps : Objects HashMap) (h : Nat) (key : List Byte) (value : Nat) :
    Option (Objects HashMap) :=
  maps.modify h fun map => map.insert key value

/-- `sizeof( url )` -/
def urlSize : Nat := 255

variable (f : Formats) (m : Mem)

/-- The loop over `mac_info` records from `data` on; it leaves `data` behind them. -/
def loadMacs (h : Nat) : Nat → Nat → Objects HashMap → Option (Nat × Objects HashMap)
  | 0, data, maps => some (data, maps)
  | n + 1, data, maps =>
    let mac := m.bytes data f.macSize
    match insertHashMap maps h (f.mac mac) (f.macType mac) with
    | none => none
    | some maps => loadMacs h n (data + f.macSize) maps

/-- The loop over `domain_info` records; `data` is not moved over the name. -/
def loadDomains (h : Nat) : Nat → Nat → Objects HashMap → Option (Objects HashMap)
  | 0, _, maps => some maps
  | n + 1, data, maps =>
    let domain := m.bytes data f.domainSize
    let data := data + f.domainSize
    if f.strlen domain > urlSize then none
    else
      match insertHashMap maps h (m.bytes data (f.strlen domain)) (f.domainType domain) with
      | none => none
      | some maps => loadDomains h n data maps

def LimitDevice.loadConfig (dev : LimitDevice) (data : Nat) : Option LimitDevice :=
  let (limitMap, maps) := dev.maps.create HashMap.empty
  let config := m.bytes data f.configSize
  match loadMacs f m dev.limitMap (f.macs config) (data + f.configSize) maps with
  | none => none
  | some (data, maps) =>
    match loadDomains f m dev.limitMap (f.domains config) data maps with
    | none => none
    | some maps => (maps.free dev.limitMap).map fun maps => ⟨config, limitMap, maps⟩

/-- `load_config` as the hook has it is this one, less the map. -/
theorem loadConfig_config {dev dev' : LimitDevice} {data : Nat}
    (h : dev.loadConfig f m data = some dev') {Capture : Type} (r : Records (List Byte) Capture)
    (hr : ∀ m p, r.configAt m p = m.bytes p f.configSize) (capture : Capture) :
    dev'.config = (Server.loadConfig r ⟨dev.config, capture⟩ m data).config := by
  unfold LimitDevice.loadConfig at h
  unfold Server.loadConfig
  rw [hr]
  simp only at h
  split at h
  · cases h
  · split at h
    · cases h
    · rw [Option.map_eq_some_iff] at h
      obtain ⟨maps, -, rfl⟩ := h
      rfl

/-! ## Messages -/

/-- A configuration as it is sent: the header, and the records it counts. -/
structure ConfigMessage where
  config : List Byte
  macs : List (List Byte)
  domains : List (List Byte × List Byte)
  configLen : config.length = f.configSize
  macLen : ∀ mac ∈ macs, mac.length = f.macSize
  domainLen : ∀ d ∈ domains, d.1.length = f.domainSize
  nameLen : ∀ d ∈ domains, d.2.length = f.strlen d.1 ∧ d.2.length ≤ 255
  macCount : f.macs config = macs.length
  domainCount : f.domains config = domains.length

variable {f m}

namespace ConfigMessage

variable (msg : ConfigMessage f)

def bytes : List Byte :=
  msg.config ++ msg.macs.flatten ++ msg.domains.flatMap fun d => d.1 ++ d.2

/-- The keys the message lists, with their types. -/
def entries : List (List Byte × Nat) :=
  msg.macs.map (fun mac => (f.mac mac, f.macType mac)) ++
    msg.domains.map fun d => (d.2, f.domainType d.1)

/-- The map that holds these keys and no others; of two entries for a key the later counts. -/
def limits : HashMap := msg.entries.foldl (fun map e => map.insert e.1 e.2) HashMap.empty

end ConfigMessage

/-- The device has the configuration of the message, and a live map of exactly what it lists. -/
def Installed (msg : ConfigMessage f) (dev : LimitDevice) : Prop :=
  dev.config = msg.config ∧ dev.maps.get dev.limitMap = some msg.limits

/-! ## The loops -/

/-- The loop over the MACs changes the one map only. -/
theorem loadMacs_frame {h n data data' : Nat} {maps maps' : Objects HashMap}
    (hs : loadMacs f m h n data maps = some (data', maps')) : Objects.SameBut h maps maps' := by
  induction n generalizing data maps with
  | zero =>
    cases hs
    exact .refl h _
  | succ n ih =>
    unfold loadMacs at hs
    simp only at hs
    split at hs
    · cases hs
    · rename_i maps1 hins
      exact (Objects.sameBut_modify hins).trans (ih hs)

theorem loadDomains_frame {h n data : Nat} {maps maps' : Objects HashMap}
    (hs : loadDomains f m h n data maps = some maps') : Objects.SameBut h maps maps' := by
  induction n generalizing data maps with
  | zero =>
    cases hs
    exact .refl h _
  | succ n ih =>
    unfold loadDomains at hs
    simp only at hs
    split at hs
    · cases hs
    · split at hs
      · cases hs
      · rename_i maps1 hins
        exact (Objects.sameBut_modify hins).trans (ih hs)

/-- `limit_map` can be used. -/
def LimitDevice.Live (dev : LimitDevice) : Prop := dev.maps.Live dev.limitMap

/-- The map that is installed is the new one, as it was created. -/
theorem loadConfig_some {dev dev' : LimitDevice} (hlive : dev.Live) {data : Nat}
    (h : dev.loadConfig f m data = some dev') :
    dev'.config = m.bytes data f.configSize ∧
      dev'.maps.get dev'.limitMap = some HashMap.empty := by
  have hne : dev.maps.next ≠ dev.limitMap := fun heq => hlive.ne_next heq.symm
  unfold LimitDevice.loadConfig at h
  simp only at h
  split at h
  · cases h
  · rename_i data1 maps1 hmacs
    split at h
    · cases h
    · rename_i maps2 hdomains
      rw [Option.map_eq_some_iff] at h
      obtain ⟨maps3, hfree, rfl⟩ := h
      refine ⟨rfl, ?_⟩
      have hnew : (dev.maps.create HashMap.empty).1 = dev.maps.next := rfl
      simp only [hnew]
      rw [Objects.free_get hfree, if_neg hne, loadDomains_frame hdomains _ hne,
        loadMacs_frame hmacs _ hne, Objects.create_get, if_pos rfl]

theorem loadConfig_live {dev dev' : LimitDevice} (hlive : dev.Live) {data : Nat}
    (h : dev.loadConfig f m data = some dev') : dev'.Live := by
  have hmap := (loadConfig_some hlive h).2
  unfold LimitDevice.Live Objects.Live
  rw [hmap]
  rfl

/-- A header that counts nothing is all that is read. -/
theorem loadConfig_bare {dev : LimitDevice} (hlive : dev.Live) {data : Nat}
    (hmacs : f.macs (m.bytes data f.configSize) = 0)
    (hdomains : f.domains (m.bytes data f.configSize) = 0) :
    ∃ dev', dev.loadConfig f m data = some dev' := by
  have hcreated : (dev.maps.create HashMap.empty).2.Live dev.limitMap := by
    unfold Objects.Live
    rw [Objects.create_get, if_neg hlive.ne_next]
    exact hlive
  obtain ⟨maps, hfree⟩ := Objects.free_of_live hcreated
  unfold LimitDevice.loadConfig
  simp only [hmacs, hdomains, loadMacs, loadDomains, hfree]
  exact ⟨_, rfl⟩

/-! ## What is installed -/

namespace ConfigMessage

variable (msg : ConfigMessage f)

theorem limits_empty : msg.limits = HashMap.empty ↔ msg.macs = [] ∧ msg.domains = [] := by
  have hentries : msg.entries = [] ↔ msg.macs = [] ∧ msg.domains = [] := by
    unfold entries
    rw [List.append_eq_nil_iff, List.map_eq_nil_iff, List.map_eq_nil_iff]
  rw [← hentries]
  unfold limits
  constructor
  · intro h
    rcases List.eq_nil_or_concat msg.entries with hnil | ⟨es, e, hsnoc⟩
    · exact hnil
    · -- the last entry is there
      rw [hsnoc, List.concat_eq_append, List.foldl_append] at h
      have hlast := congrFun h e.1
      simp [HashMap.insert, HashMap.empty] at hlast
  · intro h
    rw [h]
    rfl

theorem config_bytes {data : Nat} (hm : m.bytes data msg.bytes.length = msg.bytes) :
    m.bytes data f.configSize = msg.config := by
  have hlen : msg.bytes.length = f.configSize + (msg.bytes.length - f.configSize) := by
    have hconfig := msg.configLen
    unfold bytes
    rw [List.length_append, List.length_append]
    omega
  rw [hlen, ← Mem.bytes_append] at hm
  unfold bytes at hm
  rw [List.append_assoc] at hm
  exact (List.append_inj hm (by rw [Mem.bytes_length, msg.configLen])).1

end ConfigMessage

/-- Installed is the configuration of exactly those messages that list neither MACs nor domains. -/
theorem installed_iff {dev : LimitDevice} (hlive : dev.Live) (msg : ConfigMessage f) {data : Nat}
    (hm : m.bytes data msg.bytes.length = msg.bytes) :
    (∃ dev', dev.loadConfig f m data = some dev' ∧ Installed msg dev') ↔
      msg.macs = [] ∧ msg.domains = [] := by
  have hconfig := msg.config_bytes hm
  rw [← msg.limits_empty]
  constructor
  · intro h
    obtain ⟨dev', hload, -, hmap⟩ := h
    rw [(loadConfig_some hlive hload).2] at hmap
    exact (Option.some.inj hmap).symm
  · intro h
    obtain ⟨hmacs, hdomains⟩ := msg.limits_empty.mp h
    have hnone : f.macs (m.bytes data f.configSize) = 0 := by
      rw [hconfig, msg.macCount, hmacs]
      rfl
    have hnone' : f.domains (m.bytes data f.configSize) = 0 := by
      rw [hconfig, msg.domainCount, hdomains]
      rfl
    obtain ⟨dev', hload⟩ := loadConfig_bare hlive hnone hnone'
    obtain ⟨hheader, hmap⟩ := loadConfig_some hlive hload
    refine ⟨dev', hload, by rw [hheader, hconfig], ?_⟩
    rw [hmap, h]

/-- Records of the smallest sizes: two counts, a MAC and its type, a length and a type. -/
def smallFormats : Formats where
  configSize := 2
  macSize := 7
  domainSize := 2
  macs := fun config => (config.getD 0 0).toNat
  domains := fun config => (config.getD 1 0).toNat
  mac := fun mac => mac.take 6
  macType := fun mac => (mac.getD 6 0).toNat
  strlen := fun domain => (domain.getD 0 0).toNat
  domainType := fun domain => (domain.getD 1 0).toNat

/-- The device as `route_init` leaves it, with its two other maps. -/
def routeDevice : LimitDevice :=
  let (_, maps) := Objects.start.create HashMap.empty
  let (_, maps) := maps.create HashMap.empty
  let (limitMap, maps) := maps.create HashMap.empty
  ⟨[0, 0], limitMap, maps⟩

def emptyMessage : ConfigMessage smallFormats where
  config := [0, 0]
  macs := []
  domains := []
  configLen := rfl
  macLen := by decide
  domainLen := by decide
  nameLen := by decide
  macCount := rfl
  domainCount := rfl

def oneMac : ConfigMessage smallFormats where
  config := [1, 0]
  macs := [[2, 0, 0, 0, 0, 1, 5]]
  domains := []
  configLen := rfl
  macLen := by decide
  domainLen := by decide
  nameLen := by decide
  macCount := rfl
  domainCount := rfl

theorem routeDevice_live : routeDevice.Live := rfl

theorem installed_empty :
    ∃ dev', routeDevice.loadConfig smallFormats (fun _ => 0) 0 = some dev' ∧
      Installed emptyMessage dev' :=
  (installed_iff routeDevice_live emptyMessage rfl).mpr ⟨rfl, rfl⟩

/-- A message with one MAC leaves the device with no limits. -/
theorem mac_not_installed :
    ¬ ∃ dev', routeDevice.loadConfig smallFormats (fun i => oneMac.bytes.getD i 0) 0 = some dev' ∧
      Installed oneMac dev' := by
  intro h
  obtain ⟨dev', hload, -, hmap⟩ := h
  rw [(loadConfig_some routeDevice_live hload).2] at hmap
  have hkey := congrFun (Option.some.inj hmap) [2, 0, 0, 0, 0, 1]
  exact absurd hkey (by decide)

end Server
end Xsky
