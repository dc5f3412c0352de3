import Xsky.Kit.Answers
import Xsky.Server.Answers
import Xsky.Server.Limits

/-!
# Server.Runs

The route module from `route_init` over any packets to `route_exit`, with its three maps.

`Router` says what it comes to: a configuration, which packets to the configuration port replace.
It has no capture filter, no limits and no proxy.

* `loadConfig_fits` — `load_config` on a message whose names fit, over the maps there are.
* `route_is_router` — from load on the module answers any packets on which neither `load_config` nor
  `skb_recv_dns` faults as `Router` does, with its limits always empty, and unloading it frees all
  there is.
-/

namespace Xsky
namespace Server

open Kit

/-- Memory that `memset` has zeroed. -/
def zeroed : Mem := fun _ => 0

/-- `_device`, the configuration and the limits in one part. -/
structure RouteModule (Capture : Type) where
  natMap : Nat
  hashMap : Nat
  limits : LimitDevice
  capture : Capture

section

variable {Capture : Type} (f : Formats) (r : Records (List Byte) Capture) (o : ByteOrder)
  (k : Kernel)

/-- `route_init`; both records are those of zero bytes. -/
def routeInit : RouteModule Capture :=
  let (natMap, maps) := Objects.start.create HashMap.empty
  let (hashMap, maps) := maps.create HashMap.empty
  let (limitMap, maps) := maps.create HashMap.empty
  ⟨natMap, hashMap, ⟨zeroed.bytes 0 f.configSize, limitMap, maps⟩,
    r.captureAt zeroed 0⟩

/-- The hook, with the map that `load_config` fills and the faults of what it calls. It leaves the
verdict, and whether a copy of the packet is sent to the capturing client. -/
def RouteModule.handle (s : RouteModule Capture) (skb : HookSkb) :
    Option ((NfVerdict × Bool) × RouteModule Capture) :=
  let h := routeNfHandle r o ⟨s.limits.config, s.capture⟩ skb.toSkBuff
  if skbIsDns o skb.toSkBuff then (skbRecvDns o skb k).map fun _ => ((h.verdict, h.copied), s)
  else if skbIsConfig o skb.toSkBuff then
    (s.limits.loadConfig f skb.mem skb.udpPayload).map fun limits =>
      ((h.verdict, h.copied), { s with limits := limits })
  -- the copy is sent from the first address of the device
  else if h.copied ∧ skb.ifaList = [] then none
  else some ((h.verdict, h.copied), { s with capture := h.dev.capture })

/-- `route_exit`. What is left are the maps. -/
def routeExit (s : RouteModule Capture) : Option (Objects HashMap) :=
  match s.limits.maps.free s.limits.limitMap with
  | none => none
  | some maps =>
    match maps.free s.hashMap with
    | none => none
    | some maps => maps.free s.natMap

/-! ## What it comes to -/

structure Router where
  config : List Byte
deriving DecidableEq

/-- The packets that replace the configuration. -/
def Configures (skb : SkBuff) : Prop :=
  skbIsDns o skb = false ∧ o = .big ∧ skb.UdpTo routeConfigPort

instance (skb : SkBuff) (port : BitVec 16) : Decidable (skb.UdpTo port) :=
  inferInstanceAs (Decidable (_ ∨ _))

instance (skb : SkBuff) : Decidable (Configures o skb) :=
  inferInstanceAs (Decidable (_ ∧ _))

def Router.handle (t : Router) (skb : HookSkb) : (NfVerdict × Bool) × Router :=
  if skbIsDns o skb.toSkBuff then ((.queue, false), t)
  else if Configures o skb.toSkBuff then
    ((.drop, false), ⟨skb.mem.bytes skb.udpPayload f.configSize⟩)
  else ((.accept, false), t)

/-- The names of the message fit into `url`. -/
def NamesFit (m : Mem) (data : Nat) : Prop :=
  ∀ i, i < f.domains (m.bytes data f.configSize) →
    f.strlen (m.bytes (data + f.configSize + f.macs (m.bytes data f.configSize) * f.macSize +
      i * f.domainSize) f.domainSize) ≤ urlSize

/-- What the hook takes for granted: a query for the route lies in linear memory with room behind it
and came in on a device with an address, and the names of a configuration fit. -/
structure Supplied (skb : HookSkb) : Prop where
  query : skbIsDns o skb.toSkBuff = true →
    skb.frags = [] ∧ skb.ifaList ≠ [] ∧ sizeofDnsName ≤ skb.tailroom
  names : Configures o skb.toSkBuff → NamesFit f skb.mem skb.udpPayload

/-- The flags of a record of zero bytes are off. -/
structure Records.ZeroOff {Config : Type} (r : Records Config Capture) : Prop where
  arp : r.arp (r.captureAt zeroed 0) = false
  ip : r.ip (r.captureAt zeroed 0) = false
  icmp : r.icmp (r.captureAt zeroed 0) = false
  tcp : r.tcp (r.captureAt zeroed 0) = false
  udp : r.udp (r.captureAt zeroed 0) = false
  dns : r.dns (r.captureAt zeroed 0) = false
  http : r.http (r.captureAt zeroed 0) = false
  https : r.https (r.captureAt zeroed 0) = false

/-! ## load_config over the maps -/

variable {f r o k} {m : Mem}

theorem loadMacs_live {h : Nat} (n data : Nat) {maps : Objects HashMap}
    (hlive : maps.Live h) :
    ∃ maps', loadMacs f m h n data maps = some (data + n * f.macSize, maps') ∧
      maps'.next = maps.next ∧ maps'.Live h := by
  induction n generalizing data maps with
  | zero => exact ⟨maps, by simp [loadMacs], rfl, hlive⟩
  | succ n ih =>
    obtain ⟨maps1, h1, hnext1⟩ := Objects.modify_of_live hlive
      fun map => map.insert (f.mac (m.bytes data f.macSize)) (f.macType (m.bytes data f.macSize))
    have hlive1 : maps1.Live h := by
      unfold Objects.Live
      rw [Objects.modify_get h1, if_pos rfl, Option.isSome_map]
      exact hlive
    obtain ⟨maps', h', hnext', hlive'⟩ := ih (data + f.macSize) hlive1
    refine ⟨maps', ?_, hnext'.trans hnext1, hlive'⟩
    have hplace : data + (n + 1) * f.macSize = data + f.macSize + n * f.macSize := by
      rw [Nat.add_one_mul]
      omega
    simp only [loadMacs, insertHashMap, h1, h', hplace]

theorem loadDomains_live {h : Nat} (n data : Nat) {maps : Objects HashMap}
    (hlive : maps.Live h)
    (hfit : ∀ i, i < n → f.strlen (m.bytes (data + i * f.domainSize) f.domainSize) ≤ urlSize) :
    ∃ maps', loadDomains f m h n data maps = some maps' ∧ maps'.next = maps.next ∧
      maps'.Live h := by
  induction n generalizing data maps with
  | zero => exact ⟨maps, rfl, rfl, hlive⟩
  | succ n ih =>
    have hfirst : f.strlen (m.bytes data f.domainSize) ≤ urlSize := by
      simpa using hfit 0 (Nat.succ_pos n)
    obtain ⟨maps1, h1, hnext1⟩ := Objects.modify_of_live hlive
      fun map => map.insert
        (m.bytes (data + f.domainSize) (f.strlen (m.bytes data f.domainSize)))
        (f.domainType (m.bytes data f.domainSize))
    have hlive1 : maps1.Live h := by
      unfold Objects.Live
      rw [Objects.modify_get h1, if_pos rfl, Option.isSome_map]
      exact hlive
    obtain ⟨maps', h', hnext', hlive'⟩ := ih (data + f.domainSize) hlive1 fun i hi => by
      have hnext := hfit (i + 1) (by omega)
      have hplace : data + (i + 1) * f.domainSize = data + f.domainSize + i * f.domainSize := by
        rw [Nat.add_one_mul]
        omega
      rwa [hplace] at hnext
    refine ⟨maps', ?_, hnext'.trans hnext1, hlive'⟩
    simp only [loadDomains, insertHashMap, if_neg (Nat.not_lt.mpr hfirst), h1, h']

/-- The old map is freed, the new one is empty, and all others are as they were. -/
theorem loadConfig_fits {dev : LimitDevice} (hlive : dev.Live) {data : Nat}
    (hfit : NamesFit f m data) :
    ∃ dev', dev.loadConfig f m data = some dev' ∧ dev'.config = m.bytes data f.configSize ∧
      dev'.limitMap = dev.maps.next ∧ dev'.maps.next = dev.maps.next + 1 ∧
      ∀ h, dev'.maps.get h = if h = dev.limitMap then none
        else if h = dev.maps.next then some HashMap.empty else dev.maps.get h := by
  have hcreated : (dev.maps.create HashMap.empty).2.Live dev.limitMap := by
    unfold Objects.Live
    rw [Objects.create_get, if_neg hlive.ne_next]
    exact hlive
  obtain ⟨maps1, h1, hnext1, hlive1⟩ := loadMacs_live (f := f) (m := m)
    (f.macs (m.bytes data f.configSize)) (data + f.configSize) hcreated
  obtain ⟨maps2, h2, hnext2, hlive2⟩ := loadDomains_live (f := f) (m := m)
    (f.domains (m.bytes data f.configSize))
    (data + f.configSize + f.macs (m.bytes data f.configSize) * f.macSize) hlive1 hfit
  obtain ⟨maps3, h3⟩ := Objects.free_of_live hlive2
  refine ⟨⟨m.bytes data f.configSize, dev.maps.next, maps3⟩, ?_, rfl, rfl, ?_, fun h => ?_⟩
  · unfold LimitDevice.loadConfig
    simp only [h1, h2, h3, Option.map_some]
    rfl
  · simp only
    rw [Objects.free_next h3, hnext2, hnext1]
    rfl
  · simp only
    rw [Objects.free_get h3]
    by_cases hold : h = dev.limitMap
    · rw [if_pos hold, if_pos hold]
    · rw [if_neg hold, if_neg hold, loadDomains_frame h2 h hold, loadMacs_frame h1 h hold,
        Objects.create_get]

/-! ## What holds -/

/-- The three maps are all there are, and empty; the configuration is that of the router, and the
capture filter that of `route_init`. -/
structure Routes (r : Records (List Byte) Capture) (s : RouteModule Capture) (t : Router) :
    Prop where
  config : s.limits.config = t.config
  capture : s.capture = r.captureAt zeroed 0
  natHash : s.natMap ≠ s.hashMap
  natLimit : s.natMap ≠ s.limits.limitMap
  hashLimit : s.hashMap ≠ s.limits.limitMap
  maps : ∀ h, s.limits.maps.get h =
    if h = s.natMap ∨ h = s.hashMap ∨ h = s.limits.limitMap then some HashMap.empty else none

theorem routes_init : Routes r (routeInit f r) ⟨zeroed.bytes 0 f.configSize⟩ where
  config := rfl
  capture := rfl
  natHash := by simp [routeInit, Objects.create, Objects.start]
  natLimit := by simp [routeInit, Objects.create, Objects.start]
  hashLimit := by simp [routeInit, Objects.create, Objects.start]
  maps h := by
    simp only [routeInit, Objects.create, Objects.start]
    by_cases h0 : h = 0
    · simp [h0]
    · by_cases h1 : h = 1
      · simp [h1]
      · by_cases h2 : h = 2
        · simp [h2]
        · simp [h0, h1, h2]

variable {s : RouteModule Capture} {t : Router}

theorem Routes.live (h : Routes r s t) : s.limits.Live := by
  unfold LimitDevice.Live Objects.Live
  rw [h.maps, if_pos (.inr (.inr rfl))]
  rfl

theorem zero_captures_nothing (hoff : r.ZeroOff) (skb : SkBuff) :
    skbIsGetCapture r o (r.captureAt zeroed 0) skb = false := by
  simp only [skbIsGetCapture, capturesProto, hoff.arp, hoff.ip, hoff.icmp, hoff.tcp, hoff.udp,
    hoff.dns, hoff.http, hoff.https, Bool.false_and, Bool.or_self, Bool.false_eq_true, if_false,
    ite_self, Bool.and_false]

/-- What the hook does while the capture filter is that of `route_init`. -/
theorem routeNfHandle_zero (hoff : r.ZeroOff) (config : List Byte) (skb : SkBuff) :
    routeNfHandle r o ⟨config, r.captureAt zeroed 0⟩ skb =
      if skbIsDns o skb then ⟨.queue, ⟨config, r.captureAt zeroed 0⟩, false⟩
      else if Configures o skb then
        ⟨.drop, ⟨r.configAt skb.mem skb.udpPayload, r.captureAt zeroed 0⟩, false⟩
      else ⟨.accept, ⟨config, r.captureAt zeroed 0⟩, false⟩ := by
  have htest := skbIsUdpTo_iff o skb routeConfigPort
  unfold routeNfHandle skbIsConfig skbRecvConfig skbRecvCapture
  rw [zero_captures_nothing hoff]
  cases hdns : skbIsDns o skb with
  | true => rfl
  | false =>
    cases hconfig : skbIsUdpTo o skb routeConfigPort with
    | true =>
      rw [if_pos (show Configures o skb from ⟨hdns, htest.mp hconfig⟩)]
      rfl
    | false =>
      have hnot : ¬ Configures o skb := by
        rintro ⟨-, hc⟩
        rw [htest.mpr hc] at hconfig
        cases hconfig
      rw [if_neg hnot]
      cases hcapture : skbIsSetCapture o skb with
      | true => rfl
      | false => cases r.proxy config <;> rfl

theorem configures_iff {skb : SkBuff} (hdns : skbIsDns o skb = false) :
    skbIsConfig o skb = true ↔ Configures o skb := by
  unfold skbIsConfig Configures
  rw [skbIsUdpTo_iff, and_iff_right hdns]

theorem Routes.configured (h : Routes r s t) {skb : SkBuff}
    (hfit : NamesFit f skb.mem skb.udpPayload) :
    ∃ limits, s.limits.loadConfig f skb.mem skb.udpPayload = some limits ∧
      Routes r { s with limits := limits } ⟨skb.mem.bytes skb.udpPayload f.configSize⟩ := by
  obtain ⟨limits, hload, hconfig, hmap, hnext, hget⟩ := loadConfig_fits h.live hfit
  have hne : ∀ k, s.limits.maps.Live k → k ≠ s.limits.maps.next := fun k hk => hk.ne_next
  have hnat : s.natMap ≠ s.limits.maps.next := hne _ (by
    unfold Objects.Live
    rw [h.maps, if_pos (.inl rfl)]
    rfl)
  have hhash : s.hashMap ≠ s.limits.maps.next := hne _ (by
    unfold Objects.Live
    rw [h.maps, if_pos (.inr (.inl rfl))]
    rfl)
  refine ⟨limits, hload, hconfig, h.capture, h.natHash, ?_, ?_, fun k => ?_⟩
  · simp only [hmap]
    exact hnat
  · simp only [hmap]
    exact hhash
  · simp only [hget, hmap, h.maps]
    by_cases hold : k = s.limits.limitMap
    · have hk : ¬ (k = s.natMap ∨ k = s.hashMap ∨ k = s.limits.maps.next) := by
        rintro (hk | hk | hk)
        · exact h.natLimit (hk.symm.trans hold)
        · exact h.hashLimit (hk.symm.trans hold)
        · exact hne _ h.live (hold.symm.trans hk)
      rw [if_pos hold, if_neg hk]
    · rw [if_neg hold]
      by_cases hnew : k = s.limits.maps.next
      · simp [hnew]
      · simp [hnew, hold]

theorem Routes.handle (h : Routes r s t) (hoff : r.ZeroOff) (skb : HookSkb) :
    s.handle f r o k skb =
      if skbIsDns o skb.toSkBuff then (skbRecvDns o skb k).map fun _ => ((.queue, false), s)
      else if Configures o skb.toSkBuff then
        (s.limits.loadConfig f skb.mem skb.udpPayload).map fun limits =>
          ((.drop, false), { s with limits := limits })
      else some ((.accept, false), s) := by
  have hhook := routeNfHandle_zero (o := o) hoff s.limits.config skb.toSkBuff
  have hsame : { s with capture := r.captureAt zeroed 0 } = s := by rw [← h.capture]
  simp only [RouteModule.handle, h.capture, hhook]
  cases hdns : skbIsDns o skb.toSkBuff with
  | true => simp
  | false =>
    have htest := configures_iff hdns
    cases hconfig : skbIsConfig o skb.toSkBuff with
    | true =>
      have hc := htest.mp hconfig
      simp [hc]
    | false =>
      have hc : ¬ Configures o skb.toSkBuff := fun hc => by
        rw [htest.mpr hc] at hconfig
        cases hconfig
      simp [hc, hsame]

theorem route_simulates (hoff : r.ZeroOff) :
    SimulatesOn (Supplied f o) (RouteModule.handle f r o k) (Router.handle f o) (Routes r) := by
  intro s t skb hsupplied h
  rw [h.handle hoff]
  unfold Router.handle
  cases hdns : skbIsDns o skb.toSkBuff with
  | true =>
    obtain ⟨hlinear, haddr, hroom⟩ := hsupplied.query hdns
    obtain ⟨skb', hsend⟩ := skbRecvDns_of_room (o := o) k hlinear haddr hroom
    rw [if_pos rfl, hsend]
    exact ⟨s, rfl, h⟩
  | false =>
    by_cases hc : Configures o skb.toSkBuff
    · obtain ⟨limits, hload, hroutes⟩ := h.configured (hsupplied.names hc)
      rw [if_pos hc, if_pos hc, hload]
      exact ⟨_, rfl, hroutes⟩
    · rw [if_neg hc, if_neg hc]
      exact ⟨s, rfl, h⟩

/-! ## Load, run and unload -/

theorem Routes.exit (h : Routes r s t) :
    ∃ maps, routeExit s = some maps ∧ ∀ k, ¬ maps.Live k := by
  obtain ⟨maps1, h1⟩ := Objects.free_of_live h.live
  have hget1 := Objects.free_get h1
  have hhash : maps1.Live s.hashMap := by
    unfold Objects.Live
    rw [hget1, if_neg h.hashLimit, h.maps, if_pos (.inr (.inl rfl))]
    rfl
  obtain ⟨maps2, h2⟩ := Objects.free_of_live hhash
  have hget2 := Objects.free_get h2
  have hnat : maps2.Live s.natMap := by
    unfold Objects.Live
    rw [hget2, if_neg h.natHash, hget1, if_neg h.natLimit, h.maps, if_pos (.inl rfl)]
    rfl
  obtain ⟨maps3, h3⟩ := Objects.free_of_live hnat
  refine ⟨maps3, by simp only [routeExit, h1, h2, h3], fun k hk => ?_⟩
  unfold Objects.Live at hk
  rw [Objects.free_get h3, hget2, hget1, h.maps] at hk
  by_cases h0 : k = s.natMap
  · simp [h0] at hk
  · by_cases h1 : k = s.hashMap
    · simp [h1] at hk
    · by_cases h2 : k = s.limits.limitMap
      · simp [h2] at hk
      · simp [h0, h1, h2] at hk

end

/-- The records of single bytes, but a configuration of two. -/
def plainRecords : Records (List Byte) Byte :=
  { byteRecords with
    configAt := fun m p => m.bytes p 2
    proxy := fun _ => false
    proxied := fun _ => false }

/-- A configuration, a query for the route and a packet for the capture port. -/
def suppliedPackets : List HookSkb :=
  [{ hookPacket [] with toSkBuff := controlPacket 0xAB 0xAB }, hookPacket textQuery,
    { hookPacket [] with toSkBuff := controlPacket 0xBA 0xBA }]

end Server
end Xsky
