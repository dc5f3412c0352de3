import Xsky.Kit.Answers
import Xsky.Dgram.Subnets

/-!
# Dgram.Tap

What the `xsky_dgram` device is for: a tap on forwarded packets. While it is open, the UDP and
UDP-Lite packets from a subnet, but those to the tunnel, are taken off their way and handed to the
user, in order and as long as there is room.

`Tap` says so without rings, masks or flags, one subnet and one tunnel for each family.
`device_is_tap`: whatever is called in whatever order, every call of the device returns what the tap
returns, and none faults.
-/

namespace Xsky
namespace Dgram

open Kit

/-! ## The tap -/

structure Tap where
  opened : Bool
  subnet : Bool → XskySubnet
  tunnel : Bool → Option (List Byte)
  queue : List Packet

/-- Before anything is asked for, every address is of the subnet and none is the tunnel. -/
def Tap.start : Tap := ⟨false, fun _ => ⟨fun _ => 0, 0, 0⟩, fun _ => none, []⟩

inductive TapCall where
  | open_
  | release
  | ioctl (cmd : BitVec 32) (arg : Nat → Option Byte)
  | packet (skb : Option Mem)
  | read (size left : Nat)
  | poll

inductive TapRet where
  | status (ret : Int)
  | verdict (v : Verdict)
  | read (ret : Int) (written : List Byte)
  | events (mask : Nat)
deriving DecidableEq

/-- `POLLIN` -/
def pollIn : Nat := 1

/-- `POLLRDNORM` -/
def pollRdNorm : Nat := 0x40

/-- The family and address a tunnel request asks for, if it can be read whole. -/
def takenTunnel (arg : Nat → Option Byte) : Option (Bool × List Byte) :=
  let addr : Mem := fun i => (arg i).getD 0
  if ∀ i ∈ List.range 17, (arg i).isSome then
    some (if addr 16 ≠ 0 then (true, addr.bytes 0 16) else (false, addr.bytes 0 4))
  else none

instance (p : Nat) (a b : Mem) : Decidable (SamePrefix p a b) :=
  inferInstanceAs (Decidable (∀ k, k < p → addrBit a k = addrBit b k))

/-- Whether the packet is taken. -/
structure Tap.Takes (t : Tap) (skb : Mem) : Prop where
  opened : t.opened = true
  protocol : protocol skb = 17 ∨ protocol skb = 136
  notTunnel : t.tunnel (isV6 skb) ≠ some (skb.bytes (destAt skb) (addrLen (isV6 skb)))
  subnet : SamePrefix (t.subnet (isV6 skb)).prefixLen.toNat (fun i => skb (sourceAt skb + i))
    (t.subnet (isV6 skb)).address
  fits : pushedLen skb ≤ xskyMtu
  room : t.queue.length < queueSize

instance (t : Tap) (skb : Mem) : Decidable (t.Takes skb) :=
  decidable_of_iff
    (t.opened = true ∧ (protocol skb = 17 ∨ protocol skb = 136) ∧
      t.tunnel (isV6 skb) ≠ some (skb.bytes (destAt skb) (addrLen (isV6 skb))) ∧
      SamePrefix (t.subnet (isV6 skb)).prefixLen.toNat (fun i => skb (sourceAt skb + i))
        (t.subnet (isV6 skb)).address ∧
      pushedLen skb ≤ xskyMtu ∧ t.queue.length < queueSize)
    ⟨fun ⟨h1, h2, h3, h4, h5, h6⟩ => ⟨h1, h2, h3, h4, h5, h6⟩,
      fun h => ⟨h.opened, h.protocol, h.notTunnel, h.subnet, h.fits, h.room⟩⟩

def Tap.ioctl (t : Tap) (cmd : BitVec 32) (arg : Nat → Option Byte) : Option Tap :=
  if cmd = iocSetUdpProxySubnet then
    (takenSubnet arg).map fun s =>
      { t with subnet := fun v6 => if v6 = s.family then s else t.subnet v6 }
  else if cmd = iocSetTunnelIp then
    (takenTunnel arg).map fun (fam, addr) =>
      { t with tunnel := fun v6 => if v6 = fam then some addr else t.tunnel v6 }
  else none

def Tap.step (t : Tap) : TapCall → TapRet × Tap
  | .open_ =>
    if t.opened then (.status (-ebusy), t) else (.status 0, { t with opened := true })
  | .release => (.status 0, { t with opened := false, queue := [] })
  | .ioctl cmd arg =>
    match t.ioctl cmd arg with
    | none => (.status (-einval), t)
    | some t' => (.status 0, t')
  | .packet none => (.verdict .accept, t)
  | .packet (some skb) =>
    if t.Takes skb then
      (.verdict .drop, { t with queue := t.queue ++ [packetAt skb (pushedLen skb)] })
    else (.verdict .accept, t)
  | .read _ left =>
    match t.queue with
    | [] => (.read (-eagain) [], t)
    | x :: xs =>
      (if left ≠ 0 then .read (-efault) (x.take (x.length - left)) else .read x.length x,
        { t with queue := xs })
  | .poll =>
    (.events (if t.queue = [] then pollRdNorm else pollIn + pollRdNorm), t)

/-! ## The device -/

/-- The mask `chr_poll` returns. -/
def chrPoll (dev : Device) : Nat :=
  if dev.rQueue.queue.have_ ≠ 0 then pollIn + pollRdNorm else pollRdNorm

def deviceStep (dev : Device) : TapCall → Option (TapRet × Device)
  | .open_ => some (.status (chrOpen dev).1, (chrOpen dev).2)
  | .release => some (.status (chrRelease dev).1, (chrRelease dev).2)
  | .ioctl cmd arg => some (.status (chrIoctl dev cmd arg).1, (chrIoctl dev cmd arg).2)
  | .packet skb => (nfHandleIn dev skb).map fun (v, dev) => (.verdict v, dev)
  | .read size left => (chrRead dev size left).map fun ((ret, bs), dev) => (.read ret bs, dev)
  | .poll => some (.events (chrPoll dev), dev)

/-- The device that stands for the tap, with its ring at these nodes. -/
structure Taps (node : Nat → Nat) (dev : Device) (t : Tap) : Prop where
  opened : dev.flockFlag = t.opened
  subnet : ∀ v6, Keeps (dev.subnetOf v6) (t.subnet v6) v6
  tunnel : t.tunnel false =
    if dev.isSetTunnelAddr then some (dev.tunnelAddr.bytes 0 4) else none
  tunnel6 : t.tunnel true =
    if dev.isSetTunnelAddr6 then some (dev.tunnelAddr6.bytes 0 16) else none
  queue : ∃ b, Rep dev.rQueue queueSize node b t.queue

section

variable {node : Nat → Nat} {dev : Device} {t : Tap}

theorem taps_start {q : QueueMem} (h : Rep q queueSize node 0 []) :
    Taps node (.init q) .start where
  opened := rfl
  subnet v6 := by
    have hzero : (Device.init q).subnetOf v6 = ⟨fun _ => 0, 0, 0⟩ := by cases v6 <;> rfl
    rw [hzero]
    exact ⟨Nat.zero_le _, rfl, fun k _ => by simp [Tap.start, addrBit]⟩
  tunnel := rfl
  tunnel6 := rfl
  queue := ⟨0, h⟩

/-! ## Requests -/

theorem xskySetTunnel_taken (dev : Device) (arg : Nat → Option Byte) :
    xskySetTunnel dev arg =
      match takenTunnel arg with
      | none => (-einval, dev)
      | some (true, _) => (0,
          { dev with
            tunnelAddr6 := dev.tunnelAddr6.fill 0 16 fun i => (arg i).getD 0
            isSetTunnelAddr6 := true })
      | some (false, _) => (0,
          { dev with
            tunnelAddr := dev.tunnelAddr.fill 0 4 fun i => (arg i).getD 0
            isSetTunnelAddr := true }) := by
  unfold xskySetTunnel copyFromUser takenTunnel
  simp only [List.all_eq_true]
  by_cases hall : ∀ i ∈ List.range 17, (arg i).isSome = true
  · simp only [if_pos hall]
    split <;> rfl
  · simp only [if_neg hall]

theorem Taps.subnetRequest (h : Taps node dev t) {arg : Nat → Option Byte} {s : XskySubnet}
    (hs : takenSubnet arg = some s) :
    Taps node (chrIoctl dev iocSetUdpProxySubnet arg).2
      { t with subnet := fun v6 => if v6 = s.family then s else t.subnet v6 } := by
  have hdev := xskySetUdpProxySubnet_taken dev arg
  rw [hs] at hdev
  refine ⟨?_, fun v6 => ?_, ?_, ?_, ?_⟩
  · rw [chrIoctl_subnet, hdev]
    simp only
    split <;> exact h.opened
  · by_cases hfam : v6 = s.family
    · subst hfam
      simp only [if_true]
      exact keeps_taken hs
    · simp only [if_neg hfam]
      rw [subnetOf_taken_other hs fun heq => hfam heq.symm]
      exact h.subnet v6
  · rw [chrIoctl_subnet, hdev]
    simp only
    split <;> exact h.tunnel
  · rw [chrIoctl_subnet, hdev]
    simp only
    split <;> exact h.tunnel6
  · rw [chrIoctl_subnet, hdev]
    simp only
    split <;> exact h.queue

theorem chrIoctl_tunnel (dev : Device) (arg : Nat → Option Byte) :
    chrIoctl dev iocSetTunnelIp arg = xskySetTunnel dev arg := by
  unfold chrIoctl
  rw [if_neg (by decide), if_neg (by decide), if_pos rfl]

theorem chrIoctl_other {cmd : BitVec 32} (hsubnet : cmd ≠ iocSetUdpProxySubnet)
    (htunnel : cmd ≠ iocSetTunnelIp) (dev : Device) (arg : Nat → Option Byte) :
    chrIoctl dev cmd arg = (-einval, dev) := by
  unfold chrIoctl
  rw [if_neg hsubnet, if_neg htunnel]
  split <;> rfl

theorem Taps.tunnelRequest (h : Taps node dev t) {arg : Nat → Option Byte} {fam : Bool}
    {addr : List Byte} (hs : takenTunnel arg = some (fam, addr)) :
    (xskySetTunnel dev arg).1 = 0 ∧ Taps node (xskySetTunnel dev arg).2
      { t with tunnel := fun v6 => if v6 = fam then some addr else t.tunnel v6 } := by
  have haddr : addr = Mem.bytes (fun i => (arg i).getD 0) 0 (addrLen fam) := by
    simp only [takenTunnel] at hs
    split at hs
    · split at hs
      · cases hs
        rfl
      · cases hs
        rfl
    · cases hs
  rw [xskySetTunnel_taken, hs]
  cases fam with
  | true =>
    refine ⟨rfl, h.opened, h.subnet, h.tunnel, ?_, h.queue⟩
    simp only [if_true, haddr, bytes_fill_zero]
    rfl
  | false =>
    refine ⟨rfl, h.opened, h.subnet, ?_, h.tunnel6, h.queue⟩
    simp only [if_true, haddr, bytes_fill_zero]
    rfl

theorem Taps.ioctl (h : Taps node dev t) (cmd : BitVec 32) (arg : Nat → Option Byte) :
    ∃ dev', deviceStep dev (.ioctl cmd arg) = some ((t.step (.ioctl cmd arg)).1, dev') ∧
      Taps node dev' (t.step (.ioctl cmd arg)).2 := by
  simp only [deviceStep, Tap.step, Tap.ioctl]
  by_cases hsubnet : cmd = iocSetUdpProxySubnet
  · subst hsubnet
    rw [if_pos rfl]
    cases hs : takenSubnet arg with
    | none =>
      rw [chrIoctl_subnet, xskySetUdpProxySubnet_taken, hs]
      exact ⟨dev, rfl, h⟩
    | some s =>
      have hret : (chrIoctl dev iocSetUdpProxySubnet arg).1 = 0 := by
        rw [chrIoctl_subnet, xskySetUdpProxySubnet_taken, hs]
      rw [hret]
      exact ⟨_, rfl, h.subnetRequest hs⟩
  · rw [if_neg hsubnet]
    by_cases htunnel : cmd = iocSetTunnelIp
    · subst htunnel
      rw [if_pos rfl, chrIoctl_tunnel]
      cases hs : takenTunnel arg with
      | none =>
        rw [xskySetTunnel_taken, hs]
        exact ⟨dev, rfl, h⟩
      | some fa =>
        obtain ⟨fam, addr⟩ := fa
        obtain ⟨hret, htaps⟩ := h.tunnelRequest hs
        rw [hret]
        exact ⟨_, rfl, htaps⟩
    · rw [if_neg htunnel, chrIoctl_other hsubnet htunnel]
      exact ⟨dev, rfl, h⟩

/-! ## Packets -/

theorem Taps.toTunnel (h : Taps node dev t) (skb : Mem) : dev.toTunnel skb = true ↔
    t.tunnel (isV6 skb) = some (skb.bytes (destAt skb) (addrLen (isV6 skb))) := by
  unfold Device.toTunnel destAt addrLen
  cases hv : isV6 skb with
  | true =>
    rw [h.tunnel6]
    cases hset : dev.isSetTunnelAddr6 with
    | true => simp
    | false => simp
  | false =>
    rw [h.tunnel]
    cases hset : dev.isSetTunnelAddr with
    | true => simp
    | false => simp

theorem Taps.takes_iff (h : Taps node dev t) (skb : Mem) :
    t.Takes skb ↔ (dev.flockFlag = true ∧ reachesPush dev skb = true) ∧
      pushedLen skb ≤ xskyMtu ∧ t.queue.length < queueSize := by
  have htun := h.toTunnel skb
  have hsub := xskyIsSubnet_of_keeps (h.subnet (isV6 skb)) fun i => skb (sourceAt skb + i)
  unfold reachesPush
  simp only [Bool.and_eq_true, Bool.or_eq_true, beq_iff_eq, Bool.not_eq_true']
  constructor
  · intro ht
    refine ⟨⟨h.opened.trans ht.opened, ⟨ht.protocol, ?_⟩, hsub.mpr ht.subnet⟩, ht.fits, ht.room⟩
    cases hto : dev.toTunnel skb with
    | false => rfl
    | true => exact absurd (htun.mp hto) ht.notTunnel
  · rintro ⟨⟨hopen, ⟨hproto, hto⟩, hs⟩, hfits, hroom⟩
    refine ⟨h.opened.symm.trans hopen, hproto, fun heq => ?_, hsub.mp hs, hfits, hroom⟩
    rw [htun.mpr heq] at hto
    cases hto

theorem Taps.packet (h : Taps node dev t) (skb : Option Mem) :
    ∃ dev', deviceStep dev (.packet skb) = some ((t.step (.packet skb)).1, dev') ∧
      Taps node dev' (t.step (.packet skb)).2 := by
  cases skb with
  | none =>
    have hnf : nfHandleIn dev none = some (.accept, dev) := by
      unfold nfHandleIn
      split <;> rfl
    simp only [deviceStep, Tap.step, hnf]
    exact ⟨dev, rfl, h⟩
  | some skb =>
    obtain ⟨b, hrep⟩ := h.queue
    have htakes := h.takes_iff skb
    simp only [deviceStep, Tap.step, nfHandleIn_eq]
    by_cases hreach : dev.flockFlag = true ∧ reachesPush dev skb = true
    · obtain ⟨v, q, b', hq, hv, hrep'⟩ := pushPacketToUser_rep hrep skb (pushedLen skb)
      rw [if_pos hreach, hq]
      by_cases hfits : pushedLen skb ≤ xskyMtu ∧ t.queue.length < queueSize
      · have hdrop := hv.mpr hfits
        subst hdrop
        rw [if_pos (htakes.mpr ⟨hreach, hfits⟩)]
        exact ⟨_, rfl, h.opened, h.subnet, h.tunnel, h.tunnel6, b', by simpa using hrep'⟩
      · have haccept : v = .accept := by
          cases v with
          | accept => rfl
          | drop => exact absurd (hv.mp rfl) hfits
        subst haccept
        rw [if_neg fun ht => hfits (htakes.mp ht).2]
        exact ⟨_, rfl, h.opened, h.subnet, h.tunnel, h.tunnel6, b', by simpa using hrep'⟩
    · rw [if_neg hreach, if_neg fun ht => hreach (htakes.mp ht).1]
      exact ⟨dev, rfl, h⟩

/-! ## All calls -/

theorem Taps.read (h : Taps node dev t) (size left : Nat) :
    ∃ dev', deviceStep dev (.read size left) = some ((t.step (.read size left)).1, dev') ∧
      Taps node dev' (t.step (.read size left)).2 := by
  obtain ⟨b, hrep⟩ := h.queue
  simp only [deviceStep, Tap.step]
  cases hxs : t.queue with
  | nil =>
    rw [hxs] at hrep
    rw [chrRead_nil hrep]
    exact ⟨dev, rfl, h⟩
  | cons x xs =>
    rw [hxs] at hrep
    obtain ⟨q, b', hread, hrep'⟩ := chrRead_cons hrep size left
    rw [hread]
    refine ⟨{ dev with rQueue := q }, ?_, h.opened, h.subnet, h.tunnel, h.tunnel6, b', hrep'⟩
    by_cases hleft : left = 0
    · simp [hleft]
    · simp [hleft]

theorem device_simulates : Simulates deviceStep Tap.step (Taps node) := by
  intro dev t c h
  cases c with
  | open_ =>
    simp only [deviceStep, Tap.step, chrOpen, h.opened]
    cases hopen : t.opened with
    | true => exact ⟨dev, rfl, h⟩
    | false => exact ⟨_, rfl, rfl, h.subnet, h.tunnel, h.tunnel6, h.queue⟩
  | release =>
    obtain ⟨b, hrep⟩ := h.queue
    exact ⟨_, rfl, rfl, h.subnet, h.tunnel, h.tunnel6, b, xskyQueueReset_rep hrep⟩
  | ioctl cmd arg => exact h.ioctl cmd arg
  | packet skb => exact h.packet skb
  | read size left => exact h.read size left
  | poll =>
    obtain ⟨b, hrep⟩ := h.queue
    refine ⟨dev, ?_, h⟩
    simp only [deviceStep, Tap.step, chrPoll, hrep.count]
    cases t.queue with
    | nil => rfl
    | cons x xs => rfl

end

/-- From module load on, the device answers any calls in any order as the tap does. -/
theorem device_is_tap (h : Heap) (calls : List TapCall) :
    ∃ q dev, xskyQueueInit h queueSize = some q ∧
      answers deviceStep (.init q) calls = some ((replies Tap.step .start calls).1, dev) := by
  obtain ⟨q, hq, hrep⟩ := deviceQueue_rep h
  obtain ⟨dev, hdev, -⟩ := device_simulates.answers (taps_start hrep) calls
  exact ⟨q, dev, hq, hdev⟩

end Dgram
end Xsky
