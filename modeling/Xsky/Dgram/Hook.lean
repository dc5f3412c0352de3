import Xsky.Dgram.Sessions

/-!
# Dgram.Hook

`nf_handle_in` as its test of `flock_flag` and the rest of it.

The rest takes a packet to the queue or lets it pass: `nfHandleIn_eq` puts the filters of both
families into one test, `reachesPush`, and `nfHandleRest_rep` says what the rest does to a ring that
represents a queue, on an open device or not.
-/

namespace Xsky
namespace Dgram

open Kit

/-- The packet goes to the tunnel address of its family. -/
def Device.toTunnel (dev : Device) (skb : Mem) : Bool :=
  if isV6 skb then dev.isSetTunnelAddr6 && dev.tunnelAddr6.bytes 0 16 == skb.bytes 24 16
  else dev.isSetTunnelAddr && dev.tunnelAddr.bytes 0 4 == skb.bytes 16 4

/-- The filters behind the test of `flock_flag`. -/
def reachesPush (dev : Device) (skb : Mem) : Bool :=
  (protocol skb == 17 || protocol skb == 136) && !dev.toTunnel skb &&
    xskyIsSubnet dev (fun i => skb (sourceAt skb + i)) (isV6 skb)

/-- The bytes the hook pushes; an IPv6 length is kept in 16 bits. -/
def pushedLen (skb : Mem) : Nat :=
  if isV6 skb then (ip6PayloadLen skb 0 + 40) % 2 ^ 16 else ipTotLen skb 0

/-- `nf_handle_in` behind its test. -/
def nfHandleRest (dev : Device) (skb : Mem) : Option (Verdict × Device) :=
  let nexthdr := if ipVersion skb 0 = 4 then ipProtocol skb 0 else ip6Nexthdr skb 0
  if nexthdr ≠ 17 ∧ nexthdr ≠ 136 then some (.accept, dev)
  else if ipVersion skb 0 = 4 then handleIpv4DgramIn dev skb
  else handleIpv6DgramIn dev skb

theorem nfHandleIn_rest (dev : Device) (skb : Mem) :
    nfHandleIn dev (some skb) =
      if dev.flockFlag = false then some (.accept, dev) else nfHandleRest dev skb := rfl

theorem handleIpv4DgramIn_eq {dev : Device} {skb : Mem} (hv : isV6 skb = false) :
    handleIpv4DgramIn dev skb =
      if dev.toTunnel skb = false ∧
          xskyIsSubnet dev (fun i => skb (sourceAt skb + i)) (isV6 skb) = true then
        pushPacketToUser dev skb (pushedLen skb)
      else some (.accept, dev) := by
  unfold handleIpv4DgramIn xskyPushIpv4PacketToUser Device.toTunnel pushedLen sourceAt
  simp only [hv, Bool.false_eq_true, if_false]
  by_cases ht : dev.isSetTunnelAddr = true ∧ dev.tunnelAddr.bytes 0 4 = skb.bytes 16 4
  · rw [if_pos ht, if_neg (by simp [ht])]
  · rw [if_neg ht]
    have ht' : (dev.isSetTunnelAddr && dev.tunnelAddr.bytes 0 4 == skb.bytes 16 4) = false := by
      simpa using ht
    cases hs : xskyIsSubnet dev (fun i => skb (12 + i)) false <;> simp [ht']

theorem handleIpv6DgramIn_eq {dev : Device} {skb : Mem} (hv : isV6 skb = true) :
    handleIpv6DgramIn dev skb =
      if dev.toTunnel skb = false ∧
          xskyIsSubnet dev (fun i => skb (sourceAt skb + i)) (isV6 skb) = true then
        pushPacketToUser dev skb (pushedLen skb)
      else some (.accept, dev) := by
  unfold handleIpv6DgramIn xskyPushIpv6PacketToUser Device.toTunnel pushedLen sourceAt
  simp only [hv, if_true]
  by_cases ht : dev.isSetTunnelAddr6 = true ∧ dev.tunnelAddr6.bytes 0 16 = skb.bytes 24 16
  · rw [if_pos ht, if_neg (by simp [ht])]
  · rw [if_neg ht]
    have ht' : (dev.isSetTunnelAddr6 && dev.tunnelAddr6.bytes 0 16 == skb.bytes 24 16) = false := by
      simpa using ht
    cases hs : xskyIsSubnet dev (fun i => skb (8 + i)) true <;> simp [ht']

/-- The rest of the hook, in one test. -/
theorem nfHandleRest_eq (dev : Device) (skb : Mem) :
    nfHandleRest dev skb =
      if reachesPush dev skb = true then pushPacketToUser dev skb (pushedLen skb)
      else some (.accept, dev) := by
  have hproto : (if ipVersion skb 0 = 4 then ipProtocol skb 0 else ip6Nexthdr skb 0) =
      protocol skb := by
    by_cases hv : ipVersion skb 0 = 4 <;> simp [protocol, isV6, hv]
  unfold nfHandleRest reachesPush
  simp only [hproto, Bool.and_eq_true, Bool.or_eq_true, beq_iff_eq, Bool.not_eq_true', and_assoc]
  by_cases hp : protocol skb ≠ 17 ∧ protocol skb ≠ 136
  · rw [if_pos hp, if_neg]
    rintro ⟨h17 | h136, -⟩
    · exact hp.1 h17
    · exact hp.2 h136
  · have hp' : protocol skb = 17 ∨ protocol skb = 136 := by
      by_cases h17 : protocol skb = 17
      · exact .inl h17
      · exact .inr (Decidable.byContradiction fun h136 => hp ⟨h17, h136⟩)
    rw [if_neg hp]
    simp only [hp', true_and]
    by_cases hv : ipVersion skb 0 = 4
    · rw [if_pos hv]
      exact handleIpv4DgramIn_eq (by simp [isV6, hv])
    · rw [if_neg hv]
      exact handleIpv6DgramIn_eq (by simp [isV6, hv])

theorem nfHandleIn_eq (dev : Device) (skb : Mem) :
    nfHandleIn dev (some skb) =
      if dev.flockFlag = true ∧ reachesPush dev skb = true then
        pushPacketToUser dev skb (pushedLen skb)
      else some (.accept, dev) := by
  rw [nfHandleIn_rest, nfHandleRest_eq]
  cases hf : dev.flockFlag <;> simp

/-- The rest of the hook diverts a packet that the filters leave to the queue and the queue can
take. -/
theorem nfHandleRest_rep {dev : Device} {node : Nat → Nat} {b : Nat} {xs : List Packet}
    (h : Rep dev.rQueue queueSize node b xs) (skb : Mem) :
    ∃ v q b', nfHandleRest dev skb = some (v, { dev with rQueue := q }) ∧
      (v = .drop ↔ reachesPush dev skb = true ∧ pushedLen skb ≤ xskyMtu ∧
        xs.length < queueSize) ∧
      Rep q queueSize node b' (xs ++ if v = .drop then [packetAt skb (pushedLen skb)] else []) := by
  rw [nfHandleRest_eq]
  by_cases hr : reachesPush dev skb = true
  · rw [if_pos hr]
    obtain ⟨v, q, b', hq, hv, hrep⟩ := pushPacketToUser_rep h skb (pushedLen skb)
    exact ⟨v, q, b', hq, by rw [hv]; simp [hr], hrep⟩
  · rw [if_neg hr]
    exact ⟨.accept, dev.rQueue, b, rfl, by simp [hr], by simpa using h⟩

/-- Every address has the prefix of length 0. -/
theorem isSubnet_zero {dev : Device} {v6 : Bool} (h : dev.subnetOf v6 = ⟨fun _ => 0, 0, 0⟩)
    (ipaddress : Mem) : xskyIsSubnet dev ipaddress v6 = true := by
  rw [xskyIsSubnet_iff, h]
  intro k _
  simp [addrBit]

theorem udpDatagram_reaches (q : QueueMem) : reachesPush (Device.init q) udpDatagram = true := by
  unfold reachesPush
  rw [isSubnet_zero (by rfl)]
  rfl

end Dgram
end Xsky
