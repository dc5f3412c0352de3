import Xsky.Kit.Runs
import Xsky.Dgram.Device
import Xsky.Dgram.Fifo

/-!
# Dgram.Sessions

Runs of the `xsky_dgram` device, one session after another. A session lasts from a `chr_open` that
returned 0 to the next `chr_release`; what is recorded of the current one is the packets diverted
and the packets read, and of the whole run the tunnel address last set for each family.

The hook reads on from the header of a packet, also where the rest of it is in page fragments.

* `xskyIsSubnet_iff`: the subnet test, bit by bit.
* `nfHandleIn_rep`: what the hook does to a device whose ring represents a queue.
* `sessions_ok_iff`: no packet of a session is lost, duplicated, reordered or left to the next one,
  and the hook diverts exactly the packets it should, if and only if what it reads of the packets it
  diverts are their own bytes.
-/

namespace Xsky
namespace Dgram

open Kit

/-! ## Datagrams -/

/-- A `struct sk_buff`: the memory from the network header on, how many bytes of the packet are in
it, and the bytes in page fragments. -/
structure SkBuff where
  header : Mem
  headlen : Nat
  frags : List Byte

/-- The hook takes every version but 4 for IPv6. -/
def isV6 (skb : Mem) : Bool := ipVersion skb 0 ≠ 4

def protocol (skb : Mem) : Byte := if isV6 skb then ip6Nexthdr skb 0 else ipProtocol skb 0

def sourceAt (skb : Mem) : Nat := if isV6 skb then 8 else 12

def destAt (skb : Mem) : Nat := if isV6 skb then 24 else 16

def datagramLen (skb : Mem) : Nat :=
  if isV6 skb then ip6PayloadLen skb 0 + 40 else ipTotLen skb 0

def SkBuff.bytes (skb : SkBuff) : List Byte := skb.header.bytes 0 skb.headlen ++ skb.frags

def datagram (skb : SkBuff) : Packet := skb.bytes.take (datagramLen skb.header)

/-- The memory from the header on has all of the datagram. -/
def SkBuff.Intact (skb : SkBuff) : Prop :=
  packetAt skb.header (datagramLen skb.header) = datagram skb

instance (skb : SkBuff) : Decidable skb.Intact := by
  unfold SkBuff.Intact
  infer_instance

/-- An IPv6 length that the hook's `unsigned short` can hold. -/
def LengthFits (skb : Mem) : Prop := isV6 skb → ip6PayloadLen skb 0 + 40 < 2 ^ 16

/-! ## Subnets -/

/-- Bit `k` of an address, the most significant one first. -/
def addrBit (ipaddress : Mem) (k : Nat) : Bool := (ipaddress (k / 8)).getLsbD (7 - k % 8)

/-- The address has the prefix of the subnet, whose own address is all zeros behind it. -/
def XskySubnet.Holds (t : XskySubnet) (isIpv6 : Bool) (ipaddress : Mem) : Prop :=
  ∀ k, k < 8 * addrLen isIpv6 →
    addrBit t.address k = (decide (k < t.prefixLen.toNat) && addrBit ipaddress k)

def Device.subnetOf (dev : Device) (isIpv6 : Bool) : XskySubnet :=
  if isIpv6 then dev.subnet6 else dev.subnet

theorem calcTables_bit : ∀ b, b < 8 → ∀ j, j < 8 → b ≠ 0 →
    (calcTables.getD (b - 1) 0).getLsbD (7 - j) = decide (j < b) := by
  decide

/-- `calc_subnet` keeps the bits of the prefix and clears the others. -/
theorem calcSubnet_bit (buf ipaddress : Mem) (prefixLen : Byte) {isIpv6 : Bool} {k : Nat}
    (hk : k < 8 * addrLen isIpv6) :
    addrBit (calcSubnet buf ipaddress prefixLen isIpv6) k =
      (decide (k < prefixLen.toNat) && addrBit ipaddress k) := by
  have hmask := calcTables_bit (prefixLen.toNat % 8) (by omega) (k % 8) (by omega)
  simp only [addrBit, calcSubnet]
  split
  · rename_i hb
    rw [Mem.fill_at]
    by_cases hwhole : k / 8 < prefixLen.toNat / 8
    · rw [if_pos (by omega), decide_eq_true (by omega), Bool.true_and, Nat.sub_zero]
    · rw [if_neg (by omega), Mem.fill_at, if_pos (by omega), decide_eq_false (by omega)]
      simp
  · rename_i hb
    rw [Mem.set_at]
    by_cases hpart : k / 8 = prefixLen.toNat / 8
    · -- the byte in which the prefix ends
      rw [if_pos hpart, BitVec.getLsbD_and, hmask hb, ← hpart]
      congr 2
      simp only [eq_iff_iff]
      omega
    · rw [if_neg hpart, Mem.fill_at]
      by_cases hwhole : k / 8 < prefixLen.toNat / 8
      · rw [if_pos (by omega), decide_eq_true (by omega), Bool.true_and, Nat.sub_zero]
      · rw [if_neg (by omega), Mem.fill_at, if_pos (by omega), decide_eq_false (by omega)]
        simp

/-- Addresses with the same bits have the same bytes. -/
theorem bytes_eq_iff_bits (a b : Mem) (n : Nat) :
    a.bytes 0 n = b.bytes 0 n ↔ ∀ k, k < 8 * n → addrBit a k = addrBit b k := by
  constructor
  · intro h k hk
    have hbyte : (a.bytes 0 n)[k / 8]? = (b.bytes 0 n)[k / 8]? := by rw [h]
    rw [List.getElem?_eq_getElem (by rw [Mem.bytes_length]; omega),
      List.getElem?_eq_getElem (by rw [Mem.bytes_length]; omega)] at hbyte
    simp only [Mem.bytes_getElem, Nat.zero_add, Option.some.injEq] at hbyte
    rw [addrBit, addrBit, hbyte]
  · intro h
    refine Mem.bytes_congr fun i hi => BitVec.eq_of_getLsbD_eq fun j hj => ?_
    have hbit := h (8 * i + (7 - j)) (by omega)
    rw [addrBit, addrBit, show (8 * i + (7 - j)) / 8 = i by omega,
      show 7 - (8 * i + (7 - j)) % 8 = j by omega] at hbit
    rw [Nat.zero_add]
    exact hbit

theorem xskyIsSubnet_iff (dev : Device) (ipaddress : Mem) (isIpv6 : Bool) :
    xskyIsSubnet dev ipaddress isIpv6 = true ↔
      (dev.subnetOf isIpv6).Holds isIpv6 ipaddress := by
  simp only [xskyIsSubnet, decide_eq_true_eq, bytes_eq_iff_bits]
  constructor
  · intro h k hk
    rw [← calcSubnet_bit (fun _ => 0) ipaddress _ hk]
    exact (h k hk).symm
  · intro h k hk
    rw [calcSubnet_bit _ _ _ hk]
    exact (h k hk).symm

/-! ## Runs -/

structure Session where
  dev : Device
  opened : Bool
  diverted : List Packet
  got : List Packet
  tunnel : Option (List Byte)
  tunnel6 : Option (List Byte)

inductive DevCall where
  | open_
  | release
  | ioctl (cmd : BitVec 32) (arg : Nat → Option Byte)
  | packet (skb : SkBuff)
  | read (size : Nat)

def Session.start (q : QueueMem) : Session := ⟨Device.init q, false, [], [], none, none⟩

/-- Records the address of a tunnel request that succeeded. -/
def Session.noteTunnel (s : Session) (addr : Mem) : Session :=
  if addr 16 ≠ 0 then { s with tunnel6 := some (addr.bytes 0 16) }
  else { s with tunnel := some (addr.bytes 0 4) }

def sessionStep (s : Session) : DevCall → Option Session
  | .open_ =>
    if (chrOpen s.dev).1 = 0 then
      some { s with dev := (chrOpen s.dev).2, opened := true, diverted := [], got := [] }
    else some { s with dev := (chrOpen s.dev).2 }
  | .release => some { s with dev := (chrRelease s.dev).2, opened := false }
  | .ioctl cmd arg =>
    let s' := { s with dev := (chrIoctl s.dev cmd arg).2 }
    if (chrIoctl s.dev cmd arg).1 = 0 ∧ cmd = iocSetTunnelIp then
      some (s'.noteTunnel fun i => (arg i).getD 0)
    else some s'
  | .packet skb =>
    (nfHandleIn s.dev (some skb.header)).map fun (v, dev) =>
      { s with
        dev := dev
        diverted := if v = .drop then s.diverted ++ [datagram skb] else s.diverted }
  | .read size =>
    (chrRead s.dev size 0).map fun ((n, bs), dev) =>
      { s with dev := dev, got := if 0 ≤ n then s.got ++ [bs] else s.got }

/-- Reads happen in a session. -/
def Allowed (s : Session) : DevCall → Prop
  | .read _ => s.opened = true
  | .packet skb => LengthFits skb.header
  | _ => True

def Session.lastTunnel (s : Session) (v6 : Bool) : Option (List Byte) :=
  if v6 then s.tunnel6 else s.tunnel

/-- The packets to divert. -/
structure Diverts (s : Session) (skb : Mem) : Prop where
  opened : s.opened = true
  protocol : protocol skb = 17 ∨ protocol skb = 136
  notTunnel : s.lastTunnel (isV6 skb) ≠ some (skb.bytes (destAt skb) (addrLen (isV6 skb)))
  subnet : (s.dev.subnetOf (isV6 skb)).Holds (isV6 skb) fun i => skb (sourceAt skb + i)
  fits : datagramLen skb ≤ xskyMtu
  room : (queued s.dev.rQueue).length < queueSize

structure SessionOk (s : Session) : Prop where
  delivered : s.opened = true → s.got ++ queued s.dev.rQueue = s.diverted
  closed : s.opened = false → queued s.dev.rQueue = []
  verdict : ∀ skb, LengthFits skb → ∃ v dev, nfHandleIn s.dev (some skb) = some (v, dev) ∧
    (v = .drop ↔ Diverts s skb) ∧ (v ≠ .drop → queued dev.rQueue = queued s.dev.rQueue)

/-- What is diverted are the bytes of the packet. -/
def DivertsIntact (s : Session) : DevCall → Prop
  | .packet skb => Diverts s skb.header → skb.Intact
  | _ => True

/-- The tunnel addresses of the device are those last set. -/
structure TunnelInv (s : Session) : Prop where
  v4 : s.tunnel = if s.dev.isSetTunnelAddr then some (s.dev.tunnelAddr.bytes 0 4) else none
  v6 : s.tunnel6 = if s.dev.isSetTunnelAddr6 then some (s.dev.tunnelAddr6.bytes 0 16) else none

structure SessionInv (node : Nat → Nat) (s : Session) : Prop where
  flag : s.dev.flockFlag = s.opened
  tunnels : TunnelInv s
  rep : ∃ b xs, Rep s.dev.rQueue queueSize node b xs ∧
    (s.opened = true → s.got ++ xs = s.diverted) ∧ (s.opened = false → xs = [])

/-! ## The hook -/

/-- A push to the user refuses what the ring cannot take and leaves everything else of the device
alone. -/
theorem pushPacketToUser_rep {dev : Device} {node : Nat → Nat} {b : Nat} {xs : List Packet}
    (h : Rep dev.rQueue queueSize node b xs) (hdr : Mem) (size : Nat) :
    ∃ v q b', pushPacketToUser dev hdr size = some (v, { dev with rQueue := q }) ∧
      (v = .drop ↔ size ≤ xskyMtu ∧ xs.length < queueSize) ∧
      Rep q queueSize node b' (xs ++ if v = .drop then [packetAt hdr size] else []) := by
  have hle := h.window.fits
  by_cases hs : size ≤ xskyMtu
  · by_cases hlt : xs.length < queueSize
    · obtain ⟨q, hq, hrep⟩ := xskyQueuePush_accepted h hdr hs hlt
      exact ⟨.drop, q, _, by simp [pushPacketToUser, hq], by simp [hs, hlt], by simpa using hrep⟩
    · have hfull : xs.length = queueSize := by omega
      refine ⟨.accept, dev.rQueue, b, ?_, by simp [hlt], by simpa using h⟩
      simp [pushPacketToUser, xskyQueuePush, pushTest_rep h, Nat.not_lt.mpr hs, hfull]
  · refine ⟨.accept, dev.rQueue, b, ?_, by simp [hs], by simpa using h⟩
    simp [pushPacketToUser, xskyQueuePush, pushTest_rep h, Nat.lt_of_not_le hs]

/-- The filters of one family, then the push. -/
theorem handleDgramIn_rep {s : Session} (ht : TunnelInv s) {skb : Mem} (hfits : LengthFits skb) :
    (if isV6 skb then handleIpv6DgramIn s.dev skb else handleIpv4DgramIn s.dev skb) =
      if s.lastTunnel (isV6 skb) = some (skb.bytes (destAt skb) (addrLen (isV6 skb))) ∨
          xskyIsSubnet s.dev (fun i => skb (sourceAt skb + i)) (isV6 skb) = false then
        some (.accept, s.dev)
      else pushPacketToUser s.dev skb (datagramLen skb) := by
  cases hv : isV6 skb with
  | true =>
    have hlen := hfits hv
    simp only [if_true, handleIpv6DgramIn, xskyPushIpv6PacketToUser, Session.lastTunnel, ht.v6,
      destAt, sourceAt, datagramLen, addrLen, hv, Nat.mod_eq_of_lt hlen]
    by_cases hset : s.dev.isSetTunnelAddr6 = true
    · by_cases heq : s.dev.tunnelAddr6.bytes 0 16 = skb.bytes 24 16 <;> simp [hset, heq]
    · simp [hset]
  | false =>
    simp only [Bool.false_eq_true, if_false, handleIpv4DgramIn, xskyPushIpv4PacketToUser,
      Session.lastTunnel, ht.v4, destAt, sourceAt, datagramLen, addrLen, hv]
    by_cases hset : s.dev.isSetTunnelAddr = true
    · by_cases heq : s.dev.tunnelAddr.bytes 0 4 = skb.bytes 16 4 <;> simp [hset, heq]
    · simp [hset]

theorem nfHandleIn_rep {node : Nat → Nat} {s : Session} (hflag : s.dev.flockFlag = s.opened)
    (ht : TunnelInv s) {b : Nat} {xs : List Packet} (h : Rep s.dev.rQueue queueSize node b xs)
    {skb : Mem} (hfits : LengthFits skb) :
    ∃ v q b', nfHandleIn s.dev (some skb) = some (v, { s.dev with rQueue := q }) ∧
      (v = .drop ↔ Diverts s skb) ∧
      Rep q queueSize node b' (xs ++ if v = .drop then [packetAt skb (datagramLen skb)] else []) := by
  have hq := h.queued
  have hnone : ∀ {P : Prop}, ¬ P → ∃ v q b', some (Verdict.accept, s.dev) =
      some (v, { s.dev with rQueue := q }) ∧ (v = .drop ↔ P) ∧
      Rep q queueSize node b' (xs ++ if v = .drop then [packetAt skb (datagramLen skb)] else []) :=
    fun hP => ⟨.accept, s.dev.rQueue, b, rfl, by simp [hP], by simpa using h⟩
  unfold nfHandleIn
  split
  · rename_i hclosed
    exact hnone fun hd => by simp [hflag, hd.opened] at hclosed
  · rename_i hopen
    have hproto : (if ipVersion skb 0 = 4 then ipProtocol skb 0 else ip6Nexthdr skb 0) =
        protocol skb := by
      by_cases hv : ipVersion skb 0 = 4 <;> simp [protocol, isV6, hv]
    have hfam : (if ipVersion skb 0 = 4 then handleIpv4DgramIn s.dev skb
        else handleIpv6DgramIn s.dev skb) =
        if isV6 skb then handleIpv6DgramIn s.dev skb else handleIpv4DgramIn s.dev skb := by
      by_cases hv : ipVersion skb 0 = 4 <;> simp [isV6, hv]
    simp only [hproto, hfam, handleDgramIn_rep ht hfits]
    split
    · rename_i hp
      refine hnone fun hd => ?_
      obtain h17 | h136 := hd.protocol
      · exact hp.1 h17
      · exact hp.2 h136
    · rename_i hp
      split
      · rename_i hf
        refine hnone fun hd => ?_
        obtain htun | hsub := hf
        · exact hd.notTunnel htun
        · rw [(xskyIsSubnet_iff _ _ _).mpr hd.subnet] at hsub
          cases hsub
      · rename_i hf
        obtain ⟨v, q, b', hpush, hv, hrep⟩ := pushPacketToUser_rep h skb (datagramLen skb)
        refine ⟨v, q, b', hpush, hv.trans ⟨fun hsz => ?_, fun hd => ?_⟩, hrep⟩
        · rw [not_or] at hf
          exact ⟨by simpa [hflag] using hopen, by
            by_cases h17 : protocol skb = 17
            · exact .inl h17
            · exact .inr (Decidable.byContradiction fun h136 => hp ⟨h17, h136⟩),
            hf.1, (xskyIsSubnet_iff _ _ _).mp (by simpa using hf.2), hsz.1,
            by rw [hq]; exact hsz.2⟩
        · exact ⟨hd.fits, by rw [← hq]; exact hd.room⟩

/-! ## The invariant -/

theorem SessionInv.ok {node : Nat → Nat} {s : Session} (h : SessionInv node s) : SessionOk s := by
  obtain ⟨b, xs, hrep, hgot, hclosed⟩ := h.rep
  refine ⟨by rw [hrep.queued]; exact hgot, by rw [hrep.queued]; exact hclosed, fun skb hfits => ?_⟩
  obtain ⟨v, q, b', hnf, hv, hrep'⟩ := nfHandleIn_rep h.flag h.tunnels hrep hfits
  refine ⟨v, _, hnf, hv, fun hno => ?_⟩
  rw [if_neg hno, List.append_nil] at hrep'
  rw [hrep.queued]
  exact hrep'.queued

/-- A subnet request changes the subnets only. -/
theorem xskySetUdpProxySubnet_frame (dev : Device) (arg : Nat → Option Byte) :
    ∃ ret t t6 b b6, xskySetUdpProxySubnet dev arg =
      (ret, { dev with subnet := t, subnet6 := t6, isSetSubnet := b, isSetSubnet6 := b6 }) := by
  unfold xskySetUdpProxySubnet
  split
  · exact ⟨_, _, _, _, _, rfl⟩
  · simp only []
    split
    · exact ⟨_, _, _, _, _, rfl⟩
    · split
      · exact ⟨_, _, _, _, _, rfl⟩
      · split <;> exact ⟨_, _, _, _, _, rfl⟩

/-- A tunnel request fails and changes nothing, or sets the address of one family. -/
theorem xskySetTunnel_cases (dev : Device) (arg : Nat → Option Byte) :
    xskySetTunnel dev arg = (-einval, dev) ∨
    ∃ tmp : Mem, tmp = (fun i => (arg i).getD 0) ∧ xskySetTunnel dev arg = (0,
      if tmp 16 ≠ 0 then
        { dev with tunnelAddr6 := dev.tunnelAddr6.fill 0 16 tmp, isSetTunnelAddr6 := true }
      else { dev with tunnelAddr := dev.tunnelAddr.fill 0 4 tmp, isSetTunnelAddr := true }) := by
  unfold xskySetTunnel copyFromUser
  by_cases hall : ((List.range 17).all fun i => (arg i).isSome) = true
  · right
    refine ⟨_, rfl, ?_⟩
    simp only [hall, if_true]
    split <;> rfl
  · left
    simp only [hall, if_false, Bool.false_eq_true]

/-- What an `ioctl` can do. -/
theorem chrIoctl_cases (dev : Device) (cmd : BitVec 32) (arg : Nat → Option Byte) :
    (∃ ret t t6 b b6, (ret = 0 → cmd ≠ iocSetTunnelIp) ∧ chrIoctl dev cmd arg =
      (ret, { dev with subnet := t, subnet6 := t6, isSetSubnet := b, isSetSubnet6 := b6 })) ∨
    (cmd = iocSetTunnelIp ∧ ∃ tmp : Mem, tmp = (fun i => (arg i).getD 0) ∧
      chrIoctl dev cmd arg = (0,
        if tmp 16 ≠ 0 then
          { dev with tunnelAddr6 := dev.tunnelAddr6.fill 0 16 tmp, isSetTunnelAddr6 := true }
        else { dev with tunnelAddr := dev.tunnelAddr.fill 0 4 tmp, isSetTunnelAddr := true })) := by
  unfold chrIoctl
  split
  · exact .inl ⟨_, _, _, _, _, by simp [einval], rfl⟩
  · split
    · rename_i hcmd
      obtain ⟨ret, t, t6, b, b6, he⟩ := xskySetUdpProxySubnet_frame dev arg
      exact .inl ⟨ret, t, t6, b, b6, fun _ => by rw [hcmd]; decide, he⟩
    · split
      · rename_i hcmd
        obtain he | he := xskySetTunnel_cases dev arg
        · exact .inl ⟨_, _, _, _, _, by simp [einval], he⟩
        · exact .inr ⟨hcmd, he⟩
      · exact .inl ⟨_, _, _, _, _, by simp [einval], rfl⟩

theorem bytes_fill_zero (m : Mem) (n : Nat) (src : Mem) :
    (m.fill 0 n src).bytes 0 n = src.bytes 0 n :=
  Mem.bytes_congr fun i hi => by simp [Mem.fill_at, hi]

theorem SessionInv.ioctl {node : Nat → Nat} {s : Session} (h : SessionInv node s)
    (cmd : BitVec 32) (arg : Nat → Option Byte) :
    ∃ s', sessionStep s (.ioctl cmd arg) = some s' ∧ SessionInv node s' := by
  obtain ⟨ret, t, t6, b, b6, hret, he⟩ | ⟨hcmd, tmp, htmp, he⟩ := chrIoctl_cases s.dev cmd arg
  · have hno : ¬ (ret = 0 ∧ cmd = iocSetTunnelIp) := fun hc => hret hc.1 hc.2
    simp only [sessionStep, he, if_neg hno]
    exact ⟨_, rfl, h.flag, ⟨h.tunnels.v4, h.tunnels.v6⟩, h.rep⟩
  · subst hcmd
    simp only [sessionStep, he, and_self, if_true, ← htmp]
    unfold Session.noteTunnel
    by_cases h6 : tmp 16 ≠ 0
    · simp only [if_pos h6]
      exact ⟨_, rfl, h.flag, ⟨h.tunnels.v4, by simp [bytes_fill_zero]⟩, h.rep⟩
    · simp only [if_neg h6]
      exact ⟨_, rfl, h.flag, ⟨by simp [bytes_fill_zero], h.tunnels.v6⟩, h.rep⟩

theorem chrRead_nil {dev : Device} {node : Nat → Nat} {b : Nat}
    (h : Rep dev.rQueue queueSize node b []) (size left : Nat) :
    chrRead dev size left = some ((-eagain, []), dev) := by
  have hc : dev.rQueue.queue.have_ = 0 := h.count
  simp [chrRead, xskyQueuePop, hc]

/-- A read takes the oldest packet off before it knows whether the copy succeeds. -/
theorem chrRead_cons {dev : Device} {node : Nat → Nat} {b : Nat} {x : Packet} {ys : List Packet}
    (h : Rep dev.rQueue queueSize node b (x :: ys)) (size left : Nat) :
    ∃ q b', chrRead dev size left =
        some (if left ≠ 0 then (-efault, x.take (x.length - left)) else ((x.length : Int), x),
          { dev with rQueue := q }) ∧ Rep q queueSize node b' ys := by
  have hc : dev.rQueue.queue.have_ ≠ 0 := by
    rw [h.count]
    simp
  obtain ⟨q, hq, hheap, hrep⟩ := popLocked_rep h
  obtain ⟨d, hd, hsize, hpacket⟩ := h.window.head
  have hnode := Heap.ne_null hd
  refine ⟨q, _, ?_, hrep⟩
  simp [chrRead, xskyQueuePop, hc, hq, hnode, hheap, hd, hsize, hpacket]

/-- A read in a session takes the oldest packet, whole. -/
theorem SessionInv.read {node : Nat → Nat} {s : Session} (h : SessionInv node s)
    (hopen : s.opened = true) (size : Nat) :
    ∃ s', sessionStep s (.read size) = some s' ∧ SessionInv node s' := by
  obtain ⟨b, xs, hrep, hgot, _⟩ := h.rep
  have hclosed : ¬ s.opened = false := by simp [hopen]
  cases xs with
  | nil =>
    refine ⟨s, ?_, h⟩
    simp [sessionStep, chrRead_nil hrep, eagain]
  | cons x xs =>
    obtain ⟨q, b', hread, hrep'⟩ := chrRead_cons hrep size 0
    refine ⟨{ s with dev := { s.dev with rQueue := q }, got := s.got ++ [x] }, ?_,
      h.flag, ⟨h.tunnels.v4, h.tunnels.v6⟩, _, _, hrep', fun _ => ?_, fun hf => absurd hf hclosed⟩
    · simp [sessionStep, hread]
    · rw [← hgot hopen, List.append_assoc, List.singleton_append]

/-- What a packet does to the session: diverted, its own bytes are recorded and those from the
header on are queued. -/
theorem SessionInv.packet {node : Nat → Nat} {s : Session} (h : SessionInv node s) {skb : SkBuff}
    (hfits : LengthFits skb.header) :
    ∃ (v : Verdict) (q : QueueMem) (b' : Nat) (xs : List Packet), sessionStep s (.packet skb) = some
        { s with
          dev := { s.dev with rQueue := q }
          diverted := if v = .drop then s.diverted ++ [datagram skb] else s.diverted } ∧
      (v = .drop ↔ Diverts s skb.header) ∧ (s.opened = true → s.got ++ xs = s.diverted) ∧
      (s.opened = false → xs = []) ∧
      Rep q queueSize node b'
        (xs ++ if v = .drop then [packetAt skb.header (datagramLen skb.header)] else []) := by
  obtain ⟨b, xs, hrep, hgot, hclosed⟩ := h.rep
  obtain ⟨v, q, b', hnf, hv, hrep'⟩ := nfHandleIn_rep h.flag h.tunnels hrep hfits
  exact ⟨v, q, b', xs, by simp only [sessionStep, hnf, Option.map_some], hv, hgot, hclosed, hrep'⟩

theorem sessionStep_inv {node : Nat → Nat} (s : Session) (c : DevCall) (h : SessionInv node s)
    (hE : Allowed s c) (hC : DivertsIntact s c) :
    ∃ s', sessionStep s c = some s' ∧ SessionInv node s' := by
  cases c with
  | open_ =>
    obtain ⟨b, xs, hrep, hgot, hclosed⟩ := h.rep
    have hflag := h.flag
    by_cases hf : s.opened = true
    · rw [hf] at hflag
      exact ⟨s, by simp [sessionStep, chrOpen, hflag, ebusy], h⟩
    · -- the last session left nothing in the queue
      have hx := hclosed (by simpa using hf)
      subst hx
      refine ⟨
        { s with
          dev := { s.dev with flockFlag := true }
          opened := true
          diverted := []
          got := [] }, ?_, rfl, ⟨h.tunnels.v4, h.tunnels.v6⟩, b, [], hrep, by simp, by simp⟩
      simp only [sessionStep, chrOpen, hflag, if_neg hf, if_true]
  | release =>
    obtain ⟨b, xs, hrep, _, _⟩ := h.rep
    exact ⟨_, rfl, rfl, ⟨h.tunnels.v4, h.tunnels.v6⟩, b, [], xskyQueueReset_rep hrep, by simp,
      by simp⟩
  | ioctl cmd arg => exact h.ioctl cmd arg
  | packet skb =>
    obtain ⟨v, q, b', xs, hstep, hv, hgot, hclosed, hrep⟩ := h.packet hE
    refine ⟨_, hstep, h.flag, ⟨h.tunnels.v4, h.tunnels.v6⟩, b', _, hrep, fun hopen => ?_,
      fun hopen => ?_⟩
    · rw [← List.append_assoc, hgot hopen]
      split
      · rename_i hdrop
        rw [hC (hv.mp hdrop)]
      · exact List.append_nil _
    · have hno : v ≠ .drop := by
        intro hdrop
        rw [(hv.mp hdrop).opened] at hopen
        cases hopen
      rw [if_neg hno, hclosed hopen, List.append_nil]
  | read size => exact h.read hE size

/-- A packet recorded and queued with other bytes never comes out as it went in. -/
theorem divertsIntact_of_ok {node : Nat → Nat} (s : Session) (c : DevCall) (s' : Session)
    (h : SessionInv node s) (hE : Allowed s c) (hs : sessionStep s c = some s')
    (hok : SessionOk s') : DivertsIntact s c := by
  cases c with
  | packet skb =>
    intro hdiverts
    obtain ⟨v, q, b', xs, hstep, hv, hgot, -, hrep⟩ := h.packet hE
    rw [hs] at hstep
    cases hstep
    have hdrop := hv.mpr hdiverts
    have hdelivered := hok.delivered hdiverts.opened
    simp only [if_pos hdrop] at hrep hdelivered
    rw [hrep.queued, ← List.append_assoc, hgot hdiverts.opened] at hdelivered
    exact (List.cons.inj (List.append_cancel_left hdelivered)).1
  | _ => trivial

/-- The queue `xsky_init` makes. -/
theorem deviceQueue_rep (h : Heap) :
    ∃ q, xskyQueueInit h queueSize = some q ∧ Rep q queueSize (fun i => h.brk + i) 0 [] :=
  xskyQueueInit_rep h (by decide) (by decide)

theorem sessionInv_start {q : QueueMem} {node : Nat → Nat} (h : Rep q queueSize node 0 []) :
    SessionInv node (.start q) :=
  ⟨rfl, ⟨rfl, rfl⟩, 0, [], h, by simp [Session.start], by simp⟩

/-- In a run of the device from module load, what was read in the session and what is still queued
are the packets diverted in it, in order, between sessions nothing is queued, and the hook diverts
exactly the packets `Diverts` says: if and only if each packet diverted has its bytes in the memory
the hook reads. -/
theorem sessions_ok_iff (h : Heap) (q : QueueMem) (hq : xskyQueueInit h queueSize = some q)
    (calls : List DevCall) (hallowed : Along sessionStep Allowed (.start q) calls) :
    Always sessionStep SessionOk (.start q) calls ↔
      Along sessionStep DivertsIntact (.start q) calls := by
  obtain ⟨q', hq', hrep⟩ := deviceQueue_rep h
  rw [hq] at hq'
  cases hq'
  exact always_iff_along_of (fun s hs => hs.ok) sessionStep_inv divertsIntact_of_ok
    (sessionInv_start hrep) hallowed

/-- An IPv4 datagram of 28 bytes with UDP in it, from 0.0.0.0. -/
def udpDatagram : Mem :=
  fun i => if i = 0 then 0x45 else if i = 3 then 28 else if i = 9 then 17 else 0

/-- A session with a read of nothing and a UDP packet over IPv4. -/
theorem sessions_ok_udp :
    ∃ q, xskyQueueInit Heap.empty queueSize = some q ∧
      Always sessionStep SessionOk (.start q)
        [.open_, .read 1501, .packet ⟨udpDatagram, 28, []⟩, .release] := by
  obtain ⟨q, hq, _⟩ := deviceQueue_rep Heap.empty
  have hallowed : Along sessionStep Allowed (.start q)
      [.open_, .read 1501, .packet ⟨udpDatagram, 28, []⟩, .release] := by
    refine ⟨trivial, fun s1 h1 => ⟨?_, fun s2 _ => ⟨?_, fun s3 _ => ⟨trivial, fun s4 _ => trivial⟩⟩⟩⟩
    · cases h1
      rfl
    · intro h6
      simp [isV6, ipVersion, udpDatagram] at h6
  refine ⟨q, hq, (sessions_ok_iff Heap.empty q hq _ hallowed).mpr ?_⟩
  exact ⟨trivial, fun s1 _ => ⟨trivial, fun s2 _ => ⟨fun _ => by decide, fun s3 _ => ⟨trivial,
    fun s4 _ => trivial⟩⟩⟩⟩

/-- The same datagram with its UDP header in a page fragment, and behind the IP header memory with
something else in it. -/
def pagedDatagram : SkBuff where
  header := udpDatagram
  headlen := 20
  frags := [0x13, 0x88, 0, 53, 0, 8, 0, 0]

/-- It is diverted, and what is queued is not it. -/
theorem paged_not_ok :
    ∃ q, xskyQueueInit Heap.empty queueSize = some q ∧
      Along sessionStep Allowed (.start q) [.open_, .packet pagedDatagram] ∧
      ¬ Always sessionStep SessionOk (.start q) [.open_, .packet pagedDatagram] := by
  obtain ⟨q, hq, hrep⟩ := deviceQueue_rep Heap.empty
  have hfits : LengthFits pagedDatagram.header := by
    intro h6
    simp [isV6, ipVersion, pagedDatagram, udpDatagram] at h6
  refine ⟨q, hq, ⟨trivial, fun s1 _ => ⟨hfits, fun s2 _ => trivial⟩⟩, fun hall => ?_⟩
  obtain ⟨s1, h1, hinv⟩ := sessionStep_inv _ .open_ (sessionInv_start hrep) trivial trivial
  obtain ⟨-, s1', h1', -, s2, h2, hok⟩ := hall
  rw [h1] at h1'
  cases h1'
  have hintact := divertsIntact_of_ok s1 (.packet pagedDatagram) s2 hinv hfits h2 hok
  cases h1
  refine absurd (hintact ⟨rfl, .inl rfl, ?_, ?_, by decide, ?_⟩) (by decide)
  · simp [Session.lastTunnel, Session.start]
  · intro k _
    simp [Device.subnetOf, Session.start, chrOpen, Device.init, addrBit]
  · have hqueued : queued (chrOpen (Session.start q).dev).2.rQueue = [] := hrep.queued
    rw [hqueued]
    decide

end Dgram
end Xsky
