import Xsky.Kit.Buf
import Xsky.Server.Answers

/-!
# Server.Capture

`skb_sendto_capture`: the copy of a captured packet that goes to the capturing client, and what the
client's `CaptureDialog::CreateEth` takes it for.

The copy is made from `data`, which is the network header in the hook, so the client gets the packet
without its Ethernet header, and in place of page fragments the memory behind the linear part; and
both lengths are the one of the packet, that of UDP in the byte order of the host.

`capture_never_intact`: no captured packet arrives as it should.
-/

namespace Xsky
namespace Server

open Kit

/-- `_device.capture.addr.addr.v4` and `_device.capture.mac.mac` -/
structure CaptureTarget where
  addr : List Byte
  mac : List Byte

/-- `ETH_P_IP` -/
def ethPIp : BitVec 16 := 0x0800

section Frame

variable (o : ByteOrder) (target : CaptureTarget) (skb : HookSkb)

/-- `// eth`; the addresses are copied from where they are, 6 bytes each. -/
def captureEth : Buf :=
  (Buf.mem target.mac).bytes 0 6 ++ (Buf.mem skb.devAddr).bytes 0 6 ++ o.store16 (o.hton16 ethPIp)

/-- `// ip`; the identification is what the new buffer happens to have there. -/
def captureIp (stale : Mem) (localIp : List Byte) (check : BitVec 16) : Buf :=
  [0x45, 0] ++ o.store16 (o.hton16 (BitVec.ofNat 16 skb.len)) ++ stale.bytes 18 2 ++ [0, 0] ++
    [0x40, 17] ++ o.store16 check ++ (Buf.mem localIp).bytes 0 4 ++
    (Buf.mem target.addr).bytes 0 4

/-- `// udp` -/
def captureUdp (check : BitVec 16) : Buf :=
  o.store16 (o.hton16 routeCapturePort) ++ o.store16 (o.hton16 routeCapturePort) ++
    o.store16 (BitVec.ofNat 16 skb.len) ++ o.store16 check

/-- The frame that is given to `dev_queue_xmit`. -/
def skbSendtoCapture (k : Kernel) (stale : Mem) : Option Buf :=
  match skb.ifaList with
  | [] => none
  | localIp :: _ =>
    let payload := skb.mem.bytes skb.network skb.len
    let len := 14 + 20 + 8 + payload.length
    let saddr := (Buf.mem localIp).bytes 0 4
    let daddr := (Buf.mem target.addr).bytes 0 4
    let udp := captureUdp o skb (k.csumTcpudpMagic saddr daddr (len - 20) skb.csum)
    let ip := captureIp o target skb stale localIp 0
    let ip := captureIp o target skb stale localIp (k.ipFastCsum (Buf.mem ip) 5)
    some (captureEth o target skb ++ ip ++ udp ++ payload)

end Frame

/-! ## At the client -/

/-- What is behind the headers of Ethernet, IP and UDP: the datagram that `readDatagram` yields. -/
def datagramOf (sent : Buf) : Buf := sent.drop (14 + 20 + 8)

/-- `protocol_eth`, its type in network order. -/
structure ProtocolEth where
  dst : List Byte
  src : List Byte
  type : List Byte
deriving DecidableEq

/-- The bytes `CreateEth` reads, if they are there. -/
def createEth (data : Buf) : Option ProtocolEth :=
  if 14 ≤ data.length then some ⟨data.take 6, (data.drop 6).take 6, (data.drop 12).take 2⟩
  else none

/-! ## What should arrive -/

def TotLenFits (sent : Buf) : Prop := (Buf.mem sent).be16 16 = 28 + (datagramOf sent).length

def UdpLenFits (sent : Buf) : Prop := (Buf.mem sent).be16 38 = 8 + (datagramOf sent).length

structure ArrivesIntact (skb : HookSkb) (sent : Buf) : Prop where
  totLen : TotLenFits sent
  udpLen : UdpLenFits sent
  payload : datagramOf sent = skb.frame
  eth : createEth (datagramOf sent) = createEth skb.frame

/-! ## What is sent -/

/-- The frame, cut where its lengths are. -/
theorem skbSendtoCapture_some {o : ByteOrder} {target : CaptureTarget} {skb : HookSkb} {k : Kernel}
    {stale : Mem} {sent : Buf} (h : skbSendtoCapture o target skb k stale = some sent) :
    ∃ front mid check : Buf, front.length = 16 ∧ mid.length = 20 ∧ check.length = 2 ∧
      sent = front ++ (o.store16 (o.hton16 (BitVec.ofNat 16 skb.len)) ++ (mid ++
        (o.store16 (BitVec.ofNat 16 skb.len) ++
          (check ++ skb.mem.bytes skb.network skb.len)))) := by
  have hstore := o.store16_length
  unfold skbSendtoCapture at h
  split at h
  · cases h
  · rename_i localIp rest hlist
    rw [Option.some.injEq] at h
    subst h
    generalize k.ipFastCsum _ _ = ipCheck
    generalize k.csumTcpudpMagic _ _ _ _ = udpCheck
    refine ⟨captureEth o target skb ++ [0x45, 0],
      stale.bytes 18 2 ++ [0, 0] ++ [0x40, 17] ++ o.store16 ipCheck ++
        (Buf.mem localIp).bytes 0 4 ++ (Buf.mem target.addr).bytes 0 4 ++
        o.store16 (o.hton16 routeCapturePort) ++ o.store16 (o.hton16 routeCapturePort),
      o.store16 udpCheck, ?_, ?_, hstore _, ?_⟩
    · simp [captureEth, hstore]
    · simp [hstore]
    · simp only [captureIp, captureUdp, List.append_assoc]

/-- A number of the host as it is read in network order. -/
def readBack (o : ByteOrder) (n : Nat) : Nat :=
  match o with
  | .little => 2 ^ 8 * (n % 2 ^ 8) + n / 2 ^ 8
  | .big => n

/-- The header of UDP is never made up for by the byte order. -/
theorem readBack_ne (o : ByteOrder) (n : Nat) : readBack o (n % 2 ^ 16) ≠ 8 + n := by
  by_cases hlt : n < 2 ^ 16
  · rw [Nat.mod_eq_of_lt hlt]
    cases o with
    | little =>
      simp only [readBack]
      omega
    | big =>
      simp only [readBack]
      omega
  · have hmod := Nat.mod_lt n (show 0 < 2 ^ 16 by omega)
    generalize n % 2 ^ 16 = v at hmod
    cases o with
    | little =>
      simp only [readBack]
      omega
    | big =>
      simp only [readBack]
      omega

section Parts

variable {o : ByteOrder} {target : CaptureTarget} {skb : HookSkb} {k : Kernel} {stale : Mem}
  {sent : Buf}

/-- The client gets the packet from its network header on. -/
theorem capture_datagram (h : skbSendtoCapture o target skb k stale = some sent) :
    datagramOf sent = skb.mem.bytes skb.network skb.len := by
  obtain ⟨front, mid, check, hfront, hmid, hcheck, rfl⟩ := skbSendtoCapture_some h
  have hstore := o.store16_length
  unfold datagramOf
  rw [← List.append_assoc, ← List.append_assoc, ← List.append_assoc, ← List.append_assoc]
  exact List.drop_left' (by simp [hfront, hmid, hcheck, hstore])

theorem be16_store16 (o : ByteOrder) (v : BitVec 16) (rest : Buf) :
    (Buf.mem (o.store16 v ++ rest)).be16 0 = readBack o v.toNat := by
  have hv := v.isLt
  cases o with
  | little =>
    simp only [ByteOrder.store16, readBack, Mem.be16, Buf.mem, List.cons_append,
      List.getD_cons_zero, List.getD_cons_succ, Mem.byteOf_toNat, Nat.reduceMul, Nat.reducePow,
      Nat.div_one, Nat.zero_add]
    omega
  | big =>
    simp only [ByteOrder.store16, readBack, Mem.be16, Buf.mem, List.cons_append,
      List.getD_cons_zero, List.getD_cons_succ, Mem.byteOf_toNat, Nat.reduceMul, Nat.reducePow,
      Nat.div_one, Nat.zero_add]
    omega

theorem be16_append {b c : Buf} {n : Nat} (h : b.length = n) :
    (Buf.mem (b ++ c)).be16 n = (Buf.mem c).be16 0 := by
  have h0 := Buf.mem_append_right (c := c) h 0
  have h1 := Buf.mem_append_right (c := c) h 1
  rw [Nat.add_zero] at h0
  unfold Mem.be16
  rw [h0, h1]

/-- The length of IP leaves out the headers that were put in front. -/
theorem capture_totLen (h : skbSendtoCapture o target skb k stale = some sent) :
    (Buf.mem sent).be16 16 = skb.len % 2 ^ 16 := by
  obtain ⟨front, mid, check, hfront, -, -, rfl⟩ := skbSendtoCapture_some h
  rw [be16_append hfront, ByteOrder.store16_hton16]
  have hbig := be16_store16 .big (BitVec.ofNat 16 skb.len) (mid ++
    (o.store16 (BitVec.ofNat 16 skb.len) ++ (check ++ skb.mem.bytes skb.network skb.len)))
  simp only [BitVec.toNat_ofNat] at hbig
  exact hbig

theorem capture_udpLen (h : skbSendtoCapture o target skb k stale = some sent) :
    (Buf.mem sent).be16 38 = readBack o (skb.len % 2 ^ 16) := by
  obtain ⟨front, mid, check, hfront, hmid, -, rfl⟩ := skbSendtoCapture_some h
  have hstore := o.store16_length
  rw [← List.append_assoc, ← List.append_assoc,
    be16_append (show _ = 38 by simp [hfront, hmid, hstore]), be16_store16, BitVec.toNat_ofNat]

end Parts

/-- No captured packet arrives intact: neither length is right, and what arrives is not the
frame. -/
theorem capture_never_intact (o : ByteOrder) (target : CaptureTarget) (skb : HookSkb) (k : Kernel)
    (stale : Mem) :
    (¬ ∃ sent, skbSendtoCapture o target skb k stale = some sent ∧ ArrivesIntact skb sent) ∧
      ∀ sent, skbSendtoCapture o target skb k stale = some sent →
        ¬ TotLenFits sent ∧ ¬ UdpLenFits sent ∧ datagramOf sent ≠ skb.frame := by
  have hparts : ∀ sent, skbSendtoCapture o target skb k stale = some sent →
      ¬ TotLenFits sent ∧ ¬ UdpLenFits sent ∧ datagramOf sent ≠ skb.frame := by
    intro sent h
    unfold TotLenFits UdpLenFits
    rw [capture_datagram h, capture_totLen h, capture_udpLen h, Mem.bytes_length]
    refine ⟨by omega, readBack_ne o skb.len, fun heq => ?_⟩
    · -- the frame is longer by the header of Ethernet
      have hlen := congrArg List.length heq
      unfold HookSkb.frame HookSkb.packet HookSkb.headlen at hlen
      rw [List.length_append, List.length_append, Mem.bytes_length, Mem.bytes_length,
        Mem.bytes_length] at hlen
      omega
  refine ⟨fun h => ?_, hparts⟩
  obtain ⟨sent, hsent, hintact⟩ := h
  exact (hparts sent hsent).1 hintact.totLen

/-- Of a query of 31 bytes the client gets 31 bytes that start with `45 00`, not with the MAC. -/
theorem captured_query :
    ∃ sent, skbSendtoCapture .little ⟨[10, 0, 0, 9], [2, 0, 0, 0, 0, 9]⟩ (hookPacket [1, 2, 3])
        zeroKernel (fun _ => 0) = some sent ∧
      (Buf.mem sent).be16 16 = 31 ∧ (Buf.mem sent).be16 38 = 31 * 256 ∧
      (datagramOf sent).length = 31 ∧
      (createEth (datagramOf sent)).map ProtocolEth.dst = some [0x45, 0, 0, 31, 0, 0] ∧
      (createEth (hookPacket [1, 2, 3]).frame).map ProtocolEth.dst = some [2, 0, 0, 0, 0, 1] ∧
      ¬ ArrivesIntact (hookPacket [1, 2, 3]) sent := by
  refine ⟨_, rfl, by decide, by decide, by decide, by decide, by decide, fun h => ?_⟩
  exact absurd h.totLen (by unfold TotLenFits; decide)

end Server
end Xsky
