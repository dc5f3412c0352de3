import Xsky.Kit.Endian

/-!
# Server.Dispatch

The netfilter hook of `server/main.c`: which packets it takes for control packets, and what it does
to `_device` for them, on a host of either byte order.

`config_info` and `capture_info` and three protocol numbers come from a header the repository does
not have; `Records` stands for them. The map `load_config` fills besides is left out, since nothing
in the hook reads it, and so are the packets the hook builds.

* `routeNfHandle` — the hook.
* `SkBuff.UdpTo`  — UDP to a local address and a port, as the packet has it on the wire.

`dispatched_iff`: control packets are dispatched as they should be if and only if they are not for
the capture port, and those for the configuration port meet a big-endian host.
-/

namespace Xsky
namespace Server

open Kit

def routeUrl : List Byte := "xsky.xsky.xsky".toList.map fun c => BitVec.ofNat 8 c.toNat

def routeConfigPort : BitVec 16 := 0xABAB
def routeCapturePort : BitVec 16 := 0xBABA

def ethTypeArp : BitVec 16 := 0x0806
def ethTypeIpv4 : BitVec 16 := 0x0800
def ethTypeIpv6 : BitVec 16 := 0x86DD

def ipProtoTcp : BitVec 16 := 6
def ipProtoUdp : BitVec 16 := 17
def ipv6NexthdrUdp : BitVec 16 := 136

def dnsFixedPort : BitVec 16 := 53
def httpFixedPort : BitVec 16 := 80
def httpsFixedPort : BitVec 16 := 443

/-- `NF_DROP`, `NF_ACCEPT`, `NF_QUEUE` -/
inductive NfVerdict where
  | drop
  | accept
  | queue
deriving DecidableEq

/-- A `struct sk_buff`: where its headers are in memory, and the addresses of the device it came
in on, as `ip_ptr->ifa_list` and `ip6_ptr->ac_list` list their bytes. -/
structure SkBuff where
  mem : Mem
  mac : Nat
  network : Nat
  transport : Nat
  ifaList : List (List Byte)
  acList : List (List Byte)

/-- The records of the missing header: how they are read from memory, and their flags. -/
structure Records (Config Capture : Type) where
  configAt : Mem → Nat → Config
  captureAt : Mem → Nat → Capture
  proxy : Config → Bool
  /-- One of the `tcp`, `udp`, `dns`, `http` and `https` of a `config_info`. -/
  proxied : Config → Bool
  arp : Capture → Bool
  ip : Capture → Bool
  icmp : Capture → Bool
  tcp : Capture → Bool
  udp : Capture → Bool
  dns : Capture → Bool
  http : Capture → Bool
  https : Capture → Bool
  ipProtoIcmp : BitVec 16
  ipv6NexthdrIcmp : BitVec 16
  ipv6NexthdrTcp : BitVec 16

/-- `_device`, less its maps. -/
structure RouteDevice (Config Capture : Type) where
  config : Config
  capture : Capture

/-- What a call of the hook leaves: the verdict, `_device`, and whether a copy of the packet is sent
to the capturing client. -/
structure Handled (Config Capture : Type) where
  verdict : NfVerdict
  dev : RouteDevice Config Capture
  copied : Bool

namespace SkBuff

variable (o : ByteOrder) (skb : SkBuff)

/-- `eth_hdr( skb )->h_proto` -/
def ethProto : BitVec 16 := o.load16 skb.mem (skb.mac + 12)

def ipProtocol : Byte := skb.mem (skb.network + 9)

def ip6Nexthdr : Byte := skb.mem (skb.network + 6)

def ipSaddr : List Byte := skb.mem.bytes (skb.network + 12) 4

def ipDaddr : List Byte := skb.mem.bytes (skb.network + 16) 4

def ip6Saddr : List Byte := skb.mem.bytes (skb.network + 8) 16

def ip6Daddr : List Byte := skb.mem.bytes (skb.network + 24) 16

def sourcePort : BitVec 16 := o.load16 skb.mem skb.transport

def destPort : BitVec 16 := o.load16 skb.mem (skb.transport + 2)

/-- `ntohs( udp_hdr( skb )->len )` -/
def udpLen : Nat := skb.mem.be16 (skb.transport + 4)

/-- Where the payload of a UDP packet is. -/
def udpPayload : Nat := skb.transport + 8

end SkBuff

/-- The loop of `is_local_ipv4`. Two words read from memory in the same order are compared, and so
their bytes. -/
def isLocalIpv4 (skb : SkBuff) (addr : List Byte) : Bool := skb.ifaList.any (· = addr)

def isLocalIpv6 (skb : SkBuff) (addr : List Byte) : Bool := skb.acList.any (· = addr)

/-- `strnstr( s1, s2, len )` finds something. -/
def strnstr (m : Mem) (s1 : Nat) (s2 : List Byte) (len : Nat) : Bool :=
  (List.range (len + 1 - s2.length)).any fun i => m.bytes (s1 + i) s2.length = s2

/-! ## Which packet it is -/

/-- The comparison of a protocol byte with a constant that has gone through `htons`. -/
def isProto (o : ByteOrder) (b : Byte) (proto : BitVec 16) : Bool :=
  b.toNat = (o.hton16 proto).toNat

def skbIsTcp {Config Capture : Type} (r : Records Config Capture) (o : ByteOrder) (skb : SkBuff) :
    Bool :=
  if skb.ethProto o = o.hton16 ethTypeIpv4 then isProto o skb.ipProtocol ipProtoTcp
  else if skb.ethProto o = o.hton16 ethTypeIpv6 then isProto o skb.ip6Nexthdr r.ipv6NexthdrTcp
  else false

def skbIsDns (o : ByteOrder) (skb : SkBuff) : Bool :=
  let query := skb.destPort o = o.hton16 dnsFixedPort &&
    strnstr skb.mem skb.udpPayload routeUrl skb.udpLen
  if skb.ethProto o = o.hton16 ethTypeIpv4 then
    isProto o skb.ipProtocol ipProtoUdp && query
  else if skb.ethProto o = o.hton16 ethTypeIpv6 then
    isProto o skb.ip6Nexthdr ipv6NexthdrUdp && query
  else false

/-- The test for a control packet to `port`. -/
def skbIsUdpTo (o : ByteOrder) (skb : SkBuff) (port : BitVec 16) : Bool :=
  if skb.ethProto o = o.hton16 ethTypeIpv4 then
    isProto o skb.ipProtocol ipProtoUdp && isLocalIpv4 skb skb.ipDaddr &&
      skb.destPort o = o.hton16 port
  else if skb.ethProto o = o.hton16 ethTypeIpv6 then
    isProto o skb.ip6Nexthdr ipv6NexthdrUdp && isLocalIpv6 skb skb.ip6Daddr &&
      skb.destPort o = o.hton16 port
  else false

def skbIsConfig (o : ByteOrder) (skb : SkBuff) : Bool := skbIsUdpTo o skb routeConfigPort

def skbIsSetCapture (o : ByteOrder) (skb : SkBuff) : Bool := skbIsUdpTo o skb routeCapturePort

section Hook

variable {Config Capture : Type} (r : Records Config Capture) (o : ByteOrder)

/-- A port of the packet, either one. -/
def onPort (skb : SkBuff) (port : BitVec 16) : Bool :=
  skb.destPort o = o.hton16 port || skb.sourcePort o = o.hton16 port

/-- What `skb_is_get_capture` asks of a packet of either family that is not from here. -/
def capturesProto (capture : Capture) (skb : SkBuff) (proto : Byte) (icmp tcp udp : BitVec 16) :
    Bool :=
  if r.ip capture then true
  else if isProto o proto icmp then r.icmp capture
  else if isProto o proto tcp then
    r.tcp capture || r.http capture && onPort o skb httpFixedPort ||
      r.https capture && onPort o skb httpsFixedPort
  else if isProto o proto udp then
    r.udp capture || r.dns capture && onPort o skb dnsFixedPort
  else false

def skbIsGetCapture (capture : Capture) (skb : SkBuff) : Bool :=
  if skb.ethProto o = o.hton16 ethTypeArp then r.arp capture
  else if skb.ethProto o = o.hton16 ethTypeIpv4 then
    !isLocalIpv4 skb skb.ipSaddr &&
      capturesProto r o capture skb skb.ipProtocol r.ipProtoIcmp ipProtoTcp ipProtoUdp
  else if skb.ethProto o = o.hton16 ethTypeIpv6 then
    !isLocalIpv6 skb skb.ip6Saddr &&
      capturesProto r o capture skb skb.ip6Nexthdr r.ipv6NexthdrIcmp r.ipv6NexthdrTcp ipv6NexthdrUdp
  else false

def skbIsClientToServer (_skb : SkBuff) : Bool := false

def skbIsServerToClient (_skb : SkBuff) : Bool := false

/-! ## What is done with it -/

def loadConfig (dev : RouteDevice Config Capture) (m : Mem) (data : Nat) :
    RouteDevice Config Capture :=
  { dev with config := r.configAt m data }

def loadCapture (dev : RouteDevice Config Capture) (m : Mem) (data : Nat) :
    RouteDevice Config Capture :=
  { dev with capture := r.captureAt m data }

def skbRecvConfig (dev : RouteDevice Config Capture) (skb : SkBuff) :
    NfVerdict × RouteDevice Config Capture :=
  if skbIsUdpTo o skb routeConfigPort then (.drop, loadConfig r dev skb.mem skb.udpPayload)
  else (.accept, dev)

/-- The port it looks for is that of `skbRecvConfig`. -/
def skbRecvCapture (dev : RouteDevice Config Capture) (skb : SkBuff) :
    NfVerdict × RouteDevice Config Capture :=
  if skbIsUdpTo o skb routeConfigPort then (.drop, loadCapture r dev skb.mem skb.udpPayload)
  else (.accept, dev)

/-- `skb_sendto_server` and `skb_sendto_client` send a packet of their own and drop this one. -/
def skbRecvProxied (dev : RouteDevice Config Capture) (skb : SkBuff) : NfVerdict :=
  if r.proxied dev.config && skbIsTcp r o skb then .drop else .accept

def skbRecvClient (dev : RouteDevice Config Capture) (skb : SkBuff) : NfVerdict :=
  skbRecvProxied r o dev skb

def skbRecvServer (dev : RouteDevice Config Capture) (skb : SkBuff) : NfVerdict :=
  skbRecvProxied r o dev skb

def routeNfHandle (dev : RouteDevice Config Capture) (skb : SkBuff) : Handled Config Capture :=
  if skbIsDns o skb then ⟨.queue, dev, false⟩
  else if skbIsConfig o skb then
    let (v, dev) := skbRecvConfig r o dev skb
    ⟨v, dev, false⟩
  else if skbIsSetCapture o skb then
    let (v, dev) := skbRecvCapture r o dev skb
    ⟨v, dev, false⟩
  else
    let copied := skbIsGetCapture r o dev.capture skb
    if r.proxy dev.config then
      if skbIsClientToServer skb then ⟨skbRecvClient r o dev skb, dev, copied⟩
      else if skbIsServerToClient skb then ⟨skbRecvServer r o dev skb, dev, copied⟩
      else ⟨.accept, dev, copied⟩
    else ⟨.accept, dev, copied⟩

end Hook

/-! ## On the wire -/

/-- UDP to a local address and a port. -/
def SkBuff.UdpTo (skb : SkBuff) (port : BitVec 16) : Prop :=
  (skb.mem.be16 (skb.mac + 12) = ethTypeIpv4.toNat ∧ skb.ipProtocol.toNat = ipProtoUdp.toNat ∧
      skb.ipDaddr ∈ skb.ifaList ∧ skb.mem.be16 (skb.transport + 2) = port.toNat) ∨
    (skb.mem.be16 (skb.mac + 12) = ethTypeIpv6.toNat ∧ skb.ip6Nexthdr.toNat = ipv6NexthdrUdp.toNat ∧
      skb.ip6Daddr ∈ skb.acList ∧ skb.mem.be16 (skb.transport + 2) = port.toNat)

/-- The hook loads the configuration and drops the packet for a packet to `ROUTE_CONFIG_PORT`, loads
the capture filter and drops it for one to `ROUTE_CAPTURE_PORT`, and for any other does neither. -/
structure Dispatched {Config Capture : Type} (r : Records Config Capture) (o : ByteOrder)
    (dev : RouteDevice Config Capture) (skb : SkBuff) : Prop where
  config : skb.UdpTo routeConfigPort → (routeNfHandle r o dev skb).verdict = .drop ∧
    (routeNfHandle r o dev skb).dev = loadConfig r dev skb.mem skb.udpPayload
  capture : skb.UdpTo routeCapturePort → (routeNfHandle r o dev skb).verdict = .drop ∧
    (routeNfHandle r o dev skb).dev = loadCapture r dev skb.mem skb.udpPayload
  other : ¬ skb.UdpTo routeConfigPort → ¬ skb.UdpTo routeCapturePort →
    (routeNfHandle r o dev skb).verdict ≠ .drop ∧ (routeNfHandle r o dev skb).dev = dev

theorem SkBuff.UdpTo.port {skb : SkBuff} {port : BitVec 16} (h : skb.UdpTo port) :
    skb.mem.be16 (skb.transport + 2) = port.toNat := by
  rcases h with ⟨-, -, -, hport⟩ | ⟨-, -, -, hport⟩
  · exact hport
  · exact hport

/-- The test is the one on the wire on a big-endian host, and never holds on another. -/
theorem skbIsUdpTo_iff (o : ByteOrder) (skb : SkBuff) (port : BitVec 16) :
    skbIsUdpTo o skb port = true ↔ o = .big ∧ skb.UdpTo port := by
  have hudp4 := o.byte_eq_hton16 skb.ipProtocol (v := ipProtoUdp) (by decide) (by decide)
  have hudp6 := o.byte_eq_hton16 skb.ip6Nexthdr (v := ipv6NexthdrUdp) (by decide) (by decide)
  have hne : ethTypeIpv4.toNat ≠ ethTypeIpv6.toNat := by decide
  unfold skbIsUdpTo SkBuff.UdpTo isProto isLocalIpv4 isLocalIpv6 SkBuff.ethProto SkBuff.destPort
  simp only [ByteOrder.load16_eq_hton16, hudp4, hudp6]
  by_cases h4 : skb.mem.be16 (skb.mac + 12) = ethTypeIpv4.toNat
  · simp [h4, hne, and_assoc]
  · by_cases h6 : skb.mem.be16 (skb.mac + 12) = ethTypeIpv6.toNat
    · simp [h6, hne.symm, and_assoc]
    · simp [h4, h6]

/-- A packet that is no query for the route is taken for a configuration, or passes and leaves
`_device` as it is: what is taken for a capture filter fails the second test. -/
theorem routeNfHandle_cases {Config Capture : Type} (r : Records Config Capture) (o : ByteOrder)
    (dev : RouteDevice Config Capture) {skb : SkBuff} (hdns : skbIsDns o skb = false) :
    (skbIsUdpTo o skb routeConfigPort = true ∧
      routeNfHandle r o dev skb = ⟨.drop, loadConfig r dev skb.mem skb.udpPayload, false⟩) ∨
    (skbIsUdpTo o skb routeConfigPort = false ∧ (routeNfHandle r o dev skb).verdict = .accept ∧
      (routeNfHandle r o dev skb).dev = dev) := by
  unfold routeNfHandle skbIsConfig skbRecvConfig skbRecvCapture
  rw [hdns]
  cases hconfig : skbIsUdpTo o skb routeConfigPort with
  | true => exact .inl ⟨rfl, rfl⟩
  | false =>
    right
    cases hcapture : skbIsSetCapture o skb with
    | true => exact ⟨rfl, rfl, rfl⟩
    | false =>
      cases hproxy : r.proxy dev.config with
      | true => exact ⟨rfl, rfl, rfl⟩
      | false => exact ⟨rfl, rfl, rfl⟩

/-- Records of a single byte each, with every flag off. -/
def byteRecords : Records Byte Byte where
  configAt := fun m p => m p
  captureAt := fun m p => m p
  proxy := fun _ => false
  proxied := fun _ => false
  arp := fun _ => false
  ip := fun _ => false
  icmp := fun _ => false
  tcp := fun _ => false
  udp := fun _ => false
  dns := fun _ => false
  http := fun _ => false
  https := fun _ => false
  ipProtoIcmp := 1
  ipv6NexthdrIcmp := 58
  ipv6NexthdrTcp := 6

/-- UDP over IPv4 from 10.0.0.2 to the local address 10.0.0.1 and the port of those two bytes, with
a payload that starts with a 7. -/
def controlPacket (hi lo : Byte) : SkBuff where
  mem := fun i =>
    [0, 0, 0, 0, 0, 0, 0, 0, 0, 0, 0, 0, 8, 0,
      0x45, 0, 0, 29, 0, 0, 0, 0, 64, 17, 0, 0, 10, 0, 0, 2, 10, 0, 0, 1,
      0x13, 0x88, hi, lo, 0, 9, 0, 0, 7].getD i 0
  mac := 0
  network := 14
  transport := 34
  ifaList := [[10, 0, 0, 1]]
  acList := []

end Server
end Xsky
