import Xsky.Headers
import Xsky.Dgram.Queue

/-!
# Dgram.Device

The `xsky_dgram` character device of `route/main.c`: its filters, the netfilter hook that diverts
packets into the ring, and the file operations. A call runs as one step. `none` is a fault; what a
call returns stands first, then the device.

The hook sees an `sk_buff` as the memory from its network header on, whatever part of it belongs to
the packet. The memory an `ioctl` argument points to may be missing anywhere, and then
`copy_from_user` fails.
-/

namespace Xsky
namespace Dgram

open Kit

/-- `QUEUE_SIZE` -/
def queueSize : Nat := 256

def eagain : Int := 11
def efault : Int := 14
def ebusy : Int := 16
def einval : Int := 22

/-- `struct xsky_subnet` -/
structure XskySubnet where
  address : Mem
  prefixLen : Byte
  isIpv6 : Byte

/-- The globals of the module, and what `poll->r_queue` points to. -/
structure Device where
  flockFlag : Bool
  tunnelAddr : Mem
  tunnelAddr6 : Mem
  subnet : XskySubnet
  subnet6 : XskySubnet
  isSetSubnet : Bool
  isSetSubnet6 : Bool
  isSetTunnelAddr : Bool
  isSetTunnelAddr6 : Bool
  rQueue : QueueMem

/-- The device as the module finds it once its queue is there; the globals start as zeros. -/
def Device.init (q : QueueMem) : Device where
  flockFlag := false
  tunnelAddr := fun _ => 0
  tunnelAddr6 := fun _ => 0
  subnet := ⟨fun _ => 0, 0, 0⟩
  subnet6 := ⟨fun _ => 0, 0, 0⟩
  isSetSubnet := false
  isSetSubnet6 := false
  isSetTunnelAddr := false
  isSetTunnelAddr6 := false
  rQueue := q

/-! ## Filters -/

/-- Bytes of an address of the family. -/
def addrLen (isIpv6 : Bool) : Nat := if isIpv6 then 16 else 4

/-- `tables` of `calc_subnet` -/
def calcTables : List Byte := [128, 192, 224, 240, 248, 252, 254]

/-- What `calc_subnet` leaves at `buf`. -/
def calcSubnet (buf ipaddress : Mem) (prefixLen : Byte) (isIpv6 : Bool) : Mem :=
  let a := prefixLen.toNat / 8
  let b := prefixLen.toNat % 8
  let m := (buf.fill 0 (addrLen isIpv6) fun _ => 0).fill 0 a ipaddress
  if b = 0 then m else m.set a (calcTables.getD (b - 1) 0 &&& ipaddress a)

/-- `copy_from_user` of `n` bytes. -/
def copyFromUser (arg : Nat → Option Byte) (n : Nat) : Option Mem :=
  if (List.range n).all fun i => (arg i).isSome then some fun i => (arg i).getD 0 else none

def xskySetUdpProxySubnet (dev : Device) (arg : Nat → Option Byte) : Int × Device :=
  match copyFromUser arg 18 with
  | none => (-einval, dev)
  | some tmp =>
    let prefixLen := tmp 16
    let isIpv6 := tmp 17
    if isIpv6 ≠ 0 ∧ prefixLen.toNat > 128 then (-einval, dev)
    else if isIpv6 = 0 ∧ prefixLen.toNat > 32 then (-einval, dev)
    else if isIpv6 ≠ 0 then
      (0, { dev with
              subnet6 := ⟨calcSubnet dev.subnet6.address tmp prefixLen true, prefixLen, isIpv6⟩
              isSetSubnet6 := true })
    else
      (0, { dev with
              subnet := ⟨calcSubnet dev.subnet.address tmp prefixLen false, prefixLen, isIpv6⟩
              isSetSubnet := true })

def xskySetTunnel (dev : Device) (arg : Nat → Option Byte) : Int × Device :=
  match copyFromUser arg 17 with
  | none => (-einval, dev)
  | some tmp =>
    if tmp 16 ≠ 0 then
      (0, { dev with tunnelAddr6 := dev.tunnelAddr6.fill 0 16 tmp, isSetTunnelAddr6 := true })
    else
      (0, { dev with tunnelAddr := dev.tunnelAddr.fill 0 4 tmp, isSetTunnelAddr := true })

/-- The local `buf` is cleared before it is read, so it may as well start as zeros. -/
def xskyIsSubnet (dev : Device) (ipaddress : Mem) (isIpv6 : Bool) : Bool :=
  let t := if isIpv6 then dev.subnet6 else dev.subnet
  let n := addrLen isIpv6
  (calcSubnet (fun _ => 0) ipaddress t.prefixLen isIpv6).bytes 0 n = t.address.bytes 0 n

/-! ## The netfilter hook -/

/-- `xsky_queue_push` and the verdict on what it returns. -/
def pushPacketToUser (dev : Device) (hdr : Mem) (size : Nat) : Option (Verdict × Device) :=
  (xskyQueuePush dev.rQueue hdr size).map fun (err, q) =>
    (if err ≠ 0 then .accept else .drop, { dev with rQueue := q })

def xskyPushIpv4PacketToUser (dev : Device) (hdr : Mem) : Option (Verdict × Device) :=
  pushPacketToUser dev hdr (ipTotLen hdr 0)

/-- The length is kept in an `unsigned short`. -/
def xskyPushIpv6PacketToUser (dev : Device) (hdr : Mem) : Option (Verdict × Device) :=
  pushPacketToUser dev hdr ((ip6PayloadLen hdr 0 + 40) % 2 ^ 16)

def handleIpv4DgramIn (dev : Device) (hdr : Mem) : Option (Verdict × Device) :=
  if dev.isSetTunnelAddr ∧ dev.tunnelAddr.bytes 0 4 = hdr.bytes 16 4 then some (.accept, dev)
  else if xskyIsSubnet dev (fun i => hdr (12 + i)) false = false then some (.accept, dev)
  else xskyPushIpv4PacketToUser dev hdr

def handleIpv6DgramIn (dev : Device) (hdr : Mem) : Option (Verdict × Device) :=
  if dev.isSetTunnelAddr6 ∧ dev.tunnelAddr6.bytes 0 16 = hdr.bytes 24 16 then some (.accept, dev)
  else if xskyIsSubnet dev (fun i => hdr (8 + i)) true = false then some (.accept, dev)
  else xskyPushIpv6PacketToUser dev hdr

def nfHandleIn (dev : Device) (skb : Option Mem) : Option (Verdict × Device) :=
  if dev.flockFlag = false then some (.accept, dev)
  else
    match skb with
    | none => some (.accept, dev)
    | some hdr =>
      let nexthdr := if ipVersion hdr 0 = 4 then ipProtocol hdr 0 else ip6Nexthdr hdr 0
      if nexthdr ≠ 17 ∧ nexthdr ≠ 136 then some (.accept, dev)
      else if ipVersion hdr 0 = 4 then handleIpv4DgramIn dev hdr
      else handleIpv6DgramIn dev hdr

/-! ## File operations -/

def chrOpen (dev : Device) : Int × Device :=
  if dev.flockFlag then (-ebusy, dev) else (0, { dev with flockFlag := true })

/-- `_IOW( XSKY_IOC_MAGIC, nr, int )` -/
def iow (nr : Nat) : BitVec 32 := BitVec.ofNat 32 (2 ^ 30 + 2 ^ 16 * 4 + 2 ^ 8 * 0xad + nr)

/-- `XSKY_IOC_SET_UDP_PROXY_SUBNET` -/
def iocSetUdpProxySubnet : BitVec 32 := iow 1

/-- `XSKY_IOC_SET_TUNNEL_IP` -/
def iocSetTunnelIp : BitVec 32 := iow 2

def chrIoctl (dev : Device) (cmd : BitVec 32) (arg : Nat → Option Byte) : Int × Device :=
  if cmd.toNat / 2 ^ 8 % 2 ^ 8 ≠ 0xad then (-einval, dev)
  else if cmd = iocSetUdpProxySubnet then xskySetUdpProxySubnet dev arg
  else if cmd = iocSetTunnelIp then xskySetTunnel dev arg
  else (-einval, dev)

/-- Returns the value of the call and the bytes written to the user's memory, of which
`copy_to_user` leaves the last `left` out. The user's `size` is not looked at. -/
def chrRead (dev : Device) (_size left : Nat) : Option ((Int × List Byte) × Device) :=
  match xskyQueuePop dev.rQueue with
  | none => none
  | some (p, q) =>
    if p = 0 then some ((-eagain, []), { dev with rQueue := q })
    else
      (q.heap.cell p).map fun d =>
        (if left ≠ 0 then (-efault, d.packet.take (d.size - left)) else ((d.size : Int), d.packet),
          { dev with rQueue := q })

def chrRelease (dev : Device) : Int × Device :=
  (0, { dev with flockFlag := false, rQueue := xskyQueueReset dev.rQueue })

end Dgram
end Xsky
