import Xsky.Kit.Buf
import Xsky.Kit.Dns
import Xsky.Server.Dispatch

/-!
# Server.Queries

What `skb_is_dns` takes for a query for the route.

It looks for the text of the name, dots included, in as many bytes from the payload on as the UDP
datagram has with its header; in a query the name has lengths in place of the dots. It is reached
on a big-endian host alone, and over IPv6 for the next header 136 alone.

* `UdpDatagram`    — a UDP datagram of either family, as it lies in memory.
* `recognised_iff` — when the answer is the right one and does not depend on what lies behind.
-/

namespace Xsky
namespace Server

open Kit

/-- `routeUrl` as a name in a message. -/
def routeName : List Byte := Dns.nameBytes (routeUrl.splitOn 0x2e)

example : routeName = [4, 120, 115, 107, 121, 4, 120, 115, 107, 121, 4, 120, 115, 107, 121, 0] := by
  decide

/-- The name the message asks for, if it asks one question. -/
def qname (payload : List Byte) : Option (List Byte) :=
  match Dns.parse payload with
  | some ⟨_, _, [q], _, _, _⟩ => some q.name
  | _ => none

/-- A UDP datagram to `port`, with all its headers in front of the payload. -/
structure UdpDatagram (skb : SkBuff) (port : BitVec 16) (payload : List Byte) : Prop where
  family : (skb.mem.be16 (skb.mac + 12) = ethTypeIpv4.toNat ∧ skb.ipProtocol = 17) ∨
    (skb.mem.be16 (skb.mac + 12) = ethTypeIpv6.toNat ∧
      (skb.ip6Nexthdr = 17 ∨ skb.ip6Nexthdr = 136))
  macAt : skb.mac + 14 ≤ skb.network
  networkAt : skb.network + 20 ≤ skb.transport
  dest : skb.mem.be16 (skb.transport + 2) = port.toNat
  length : skb.udpLen = 8 + payload.length
  payload : skb.mem.bytes skb.udpPayload payload.length = payload

/-- The datagrams of which the payload is looked at. -/
def Scanned (o : ByteOrder) (skb : SkBuff) : Prop :=
  o = .big ∧ (skb.mem.be16 (skb.mac + 12) = ethTypeIpv4.toNat ∨ skb.ip6Nexthdr = 136)

/-- The payload ends in 6 to 13 bytes that the text starts with. The 8 bytes behind the payload may
complete it. -/
def EndsInPart (payload : List Byte) : Prop := ∃ k, 6 ≤ k ∧ k < 14 ∧ routeUrl.take k <:+ payload

/-- The datagram is a query for the route if and only if `skb_is_dns` says so, whatever lies behind
the payload. -/
def Recognised (o : ByteOrder) (skb : SkBuff) (payload : List Byte) : Prop :=
  (skbIsDns o skb = true ↔ qname payload = some routeName) ∧
    ∀ mem : Mem, (∀ i, i < skb.udpPayload + payload.length → mem i = skb.mem i) →
      skbIsDns o { skb with mem := mem } = skbIsDns o skb

/-- Where the payload is looked at, the text is in it for the right name, and for another name
neither there nor begun at its end. -/
def TextTells (o : ByteOrder) (skb : SkBuff) (payload : List Byte) : Prop :=
  (Scanned o skb → (routeUrl <:+: payload ∧ qname payload = some routeName) ∨
    (¬ routeUrl <:+: payload ∧ ¬ EndsInPart payload ∧ qname payload ≠ some routeName)) ∧
    (¬ Scanned o skb → qname payload ≠ some routeName)

/-! ## The test -/

theorem skbIsDns_datagram {o : ByteOrder} {skb : SkBuff} {payload : List Byte}
    (h : UdpDatagram skb dnsFixedPort payload) :
    skbIsDns o skb = true ↔
      Scanned o skb ∧ strnstr skb.mem skb.udpPayload routeUrl (8 + payload.length) = true := by
  have hne : ethTypeIpv4.toNat ≠ ethTypeIpv6.toNat := by decide
  have hudp4 := o.byte_eq_hton16 skb.ipProtocol (v := ipProtoUdp) (by decide) (by decide)
  have hudp6 := o.byte_eq_hton16 skb.ip6Nexthdr (v := ipv6NexthdrUdp) (by decide) (by decide)
  have h136 : skb.ip6Nexthdr.toNat = ipv6NexthdrUdp.toNat ↔ skb.ip6Nexthdr = 136 := by
    rw [← BitVec.toNat_inj]
    exact Iff.rfl
  unfold skbIsDns isProto SkBuff.ethProto SkBuff.destPort Scanned
  simp only [ByteOrder.load16_eq_hton16, hudp4, hudp6, h136, h.length, h.dest, decide_true,
    Bool.true_and]
  rcases h.family with ⟨heth, hproto⟩ | ⟨heth, -⟩
  · simp [heth, hproto, ipProtoUdp]
  · simp [heth, hne.symm, and_assoc]

/-- The text in the bytes that are looked at. -/
theorem strnstr_iff (m : Mem) (s n : Nat) :
    strnstr m s routeUrl (8 + n) = true ↔
      ∃ i, i + 14 ≤ 8 + n ∧ m.bytes (s + i) 14 = routeUrl := by
  have hlen : routeUrl.length = 14 := rfl
  unfold strnstr
  rw [hlen, List.any_eq_true]
  constructor
  · intro h
    obtain ⟨i, hi, heq⟩ := h
    rw [List.mem_range] at hi
    exact ⟨i, by omega, by simpa using heq⟩
  · intro h
    obtain ⟨i, hi, heq⟩ := h
    exact ⟨i, List.mem_range.mpr (by omega), by simpa using heq⟩

theorem UdpDatagram.with_mem {skb : SkBuff} {port : BitVec 16} {payload : List Byte}
    (h : UdpDatagram skb port payload) {mem : Mem}
    (hmem : ∀ i, i < skb.udpPayload + payload.length → mem i = skb.mem i) :
    UdpDatagram { skb with mem := mem } port payload ∧
      ∀ o, Scanned o { skb with mem := mem } ↔ Scanned o skb := by
  have hmac := h.macAt
  have hnetwork := h.networkAt
  have hlow : ∀ i, i < skb.transport + 8 → mem i = skb.mem i := by
    intro i hi
    refine hmem i ?_
    unfold SkBuff.udpPayload
    omega
  have hbe : ∀ a, a + 1 < skb.transport + 8 → mem.be16 a = skb.mem.be16 a := by
    intro a ha
    unfold Mem.be16
    rw [hlow a (by omega), hlow (a + 1) ha]
  have hproto : mem (skb.network + 9) = skb.mem (skb.network + 9) := hlow _ (by omega)
  have hnext : mem (skb.network + 6) = skb.mem (skb.network + 6) := hlow _ (by omega)
  have heth := hbe (skb.mac + 12) (by omega)
  refine ⟨⟨?_, h.macAt, h.networkAt, ?_, ?_, ?_⟩, fun o => ?_⟩
  · simp only [SkBuff.ipProtocol, SkBuff.ip6Nexthdr, hproto, hnext, heth]
    exact h.family
  · rw [← h.dest]
    exact hbe (skb.transport + 2) (by omega)
  · rw [← h.length]
    exact hbe (skb.transport + 4) (by omega)
  · refine Eq.trans (Mem.bytes_congr fun i hi => ?_) h.payload
    exact hmem (skb.udpPayload + i) (by omega)
  · simp only [Scanned, SkBuff.ip6Nexthdr, hnext, heth]

/-! ## Behind the payload -/

/-- A place where the text is, whole or not, in the bytes that are looked at. -/
theorem text_place {m : Mem} {s n i : Nat} (hi : i + 14 ≤ 8 + n)
    (htext : m.bytes (s + i) 14 = routeUrl) :
    routeUrl <:+: m.bytes s n ∨ EndsInPart (m.bytes s n) := by
  have hlen : routeUrl.length = 14 := rfl
  by_cases hin : i + 14 ≤ n
  · left
    rw [Mem.infix_bytes]
    exact ⟨i, by rw [hlen]; exact hin, by rw [hlen]; exact htext⟩
  · right
    refine ⟨n - i, by omega, by omega, ?_⟩
    rw [Mem.suffix_bytes]
    have htake : (routeUrl.take (n - i)).length = n - i := by
      rw [List.length_take, hlen]
      omega
    refine ⟨by omega, ?_⟩
    rw [htake, show n - (n - i) = i by omega, ← htext,
      show 14 = (n - i) + (14 - (n - i)) by omega, ← Mem.bytes_append]
    rw [List.take_append_of_le_length (by simp), List.take_of_length_le (by simp)]

/-- The rest of the text behind a payload that ends in a part of it. -/
theorem part_completed {m : Mem} {s n : Nat} (h : EndsInPart (m.bytes s n)) :
    ∃ mem : Mem, (∀ i, i < s + n → mem i = m i) ∧
      strnstr mem s routeUrl (8 + n) = true := by
  have hlen : routeUrl.length = 14 := rfl
  obtain ⟨k, h6, h14, hsuffix⟩ := h
  have htake : (routeUrl.take k).length = k := by
    rw [List.length_take, hlen]
    omega
  rw [Mem.suffix_bytes, htake] at hsuffix
  obtain ⟨hk, hpart⟩ := hsuffix
  refine ⟨fun x => if x < s + n then m x else routeUrl.getD (x - (s + (n - k))) 0, ?_, ?_⟩
  · intro i hi
    exact if_pos hi
  · rw [strnstr_iff]
    refine ⟨n - k, by omega, ?_⟩
    apply List.ext_getElem
    · rw [Mem.bytes_length, hlen]
    · intro j hj hj'
      rw [Mem.bytes_getElem]
      by_cases hlow : j < k
      · rw [if_pos (by omega)]
        have hbyte : (m.bytes (s + (n - k)) k)[j]? = (routeUrl.take k)[j]? := by rw [hpart]
        rw [List.getElem?_take_of_lt hlow, List.getElem?_eq_getElem (by simpa using hlow),
          List.getElem?_eq_getElem hj', Mem.bytes_getElem] at hbyte
        exact Option.some.inj hbyte
      · rw [if_neg (by omega), Nat.add_sub_cancel_left]
        simp [hj']

/-- Zeros behind a payload without the text. -/
theorem part_cut {m : Mem} {s n : Nat} (h : ¬ routeUrl <:+: m.bytes s n) :
    ∃ mem : Mem, (∀ i, i < s + n → mem i = m i) ∧
      strnstr mem s routeUrl (8 + n) = false := by
  have hlen : routeUrl.length = 14 := rfl
  refine ⟨fun x => if x < s + n then m x else 0, fun i hi => if_pos hi, ?_⟩
  rw [← Bool.not_eq_true, strnstr_iff]
  intro hfound
  obtain ⟨i, hi, htext⟩ := hfound
  by_cases hin : i + 14 ≤ n
  · refine h ((Mem.infix_bytes _ _ _ _).mpr ⟨i, by rw [hlen]; exact hin, ?_⟩)
    rw [hlen, ← htext]
    exact Mem.bytes_congr fun j hj => (if_pos (by omega)).symm
  · -- the last byte of the text would be a zero
    have hlast : (routeUrl)[13]? = some 0 := by
      rw [← htext, List.getElem?_eq_getElem (by simp), Mem.bytes_getElem, if_neg (by omega)]
    exact absurd hlast (by decide)

theorem recognised_iff {o : ByteOrder} {skb : SkBuff} {payload : List Byte}
    (h : UdpDatagram skb dnsFixedPort payload) :
    Recognised o skb payload ↔ TextTells o skb payload := by
  have hscan : ∀ mem : Mem, (∀ i, i < skb.udpPayload + payload.length → mem i = skb.mem i) →
      (skbIsDns o { skb with mem := mem } = true ↔ Scanned o skb ∧
        strnstr mem skb.udpPayload routeUrl (8 + payload.length) = true) := by
    intro mem hmem
    obtain ⟨hdatagram, hscanned⟩ := h.with_mem hmem
    rw [skbIsDns_datagram hdatagram, hscanned]
    exact Iff.rfl
  have hself := skbIsDns_datagram (o := o) h
  by_cases hs : Scanned o skb
  · simp only [hs, true_and] at hscan hself
    unfold Recognised TextTells
    rw [hself]
    simp only [hs, true_implies, not_true_eq_false, false_implies, and_true]
    by_cases hin : routeUrl <:+: payload
    · -- the text is found, whatever lies behind
      have hfound : ∀ mem : Mem,
          (∀ i, i < skb.udpPayload + payload.length → mem i = skb.mem i) →
          strnstr mem skb.udpPayload routeUrl (8 + payload.length) = true := by
        intro mem hmem
        have hbytes : mem.bytes skb.udpPayload payload.length = payload :=
          (Mem.bytes_congr fun i hi => hmem _ (by omega)).trans h.payload
        rw [← hbytes, Mem.infix_bytes] at hin
        obtain ⟨i, hi, htext⟩ := hin
        rw [strnstr_iff]
        exact ⟨i, by rw [show routeUrl.length = 14 from rfl] at hi; omega, htext⟩
      have hhere := hfound skb.mem fun _ _ => rfl
      simp only [hin, hhere, true_iff, true_and, not_true_eq_false, false_and, or_false]
      refine and_iff_left fun mem hmem => ?_
      rw [(hscan mem hmem).mpr (hfound mem hmem), hself.mpr hhere]
    · simp only [hin, false_and, false_or, not_false_eq_true, true_and]
      by_cases hpart : EndsInPart payload
      · simp only [hpart, not_true_eq_false, false_and, iff_false, not_and]
        intro _ hsame
        rw [← h.payload] at hpart hin
        obtain ⟨mem1, hmem1, hyes⟩ := part_completed hpart
        obtain ⟨mem2, hmem2, hno⟩ := part_cut hin
        have hboth := (hsame mem1 hmem1).trans (hsame mem2 hmem2).symm
        rw [(hscan mem1 hmem1).mpr hyes] at hboth
        rw [(hscan mem2 hmem2).mp hboth.symm] at hno
        cases hno
      · have hnever : ∀ mem : Mem,
            (∀ i, i < skb.udpPayload + payload.length → mem i = skb.mem i) →
            ¬ strnstr mem skb.udpPayload routeUrl (8 + payload.length) = true := by
          intro mem hmem hfound
          have hbytes : mem.bytes skb.udpPayload payload.length = payload :=
            (Mem.bytes_congr fun i hi => hmem _ (by omega)).trans h.payload
          rw [strnstr_iff] at hfound
          obtain ⟨i, hi, htext⟩ := hfound
          have hplace := text_place hi htext
          rw [hbytes] at hplace
          exact hplace.elim hin hpart
        have hhere := hnever skb.mem fun _ _ => rfl
        simp only [hpart, hhere, Bool.false_eq_true, false_iff, not_false_eq_true, true_and]
        refine and_iff_left fun mem hmem => ?_
        rw [Bool.eq_iff_iff, hscan mem hmem, hself]
        exact iff_of_false (hnever mem hmem) hhere
  · -- the payload is not looked at
    simp only [hs, false_and, iff_false, Bool.not_eq_true] at hscan hself
    unfold Recognised TextTells
    rw [hself]
    simp only [hs, false_implies, not_false_eq_true, true_implies, true_and, Bool.false_eq_true,
      false_iff]
    exact and_iff_left hscan

/-- A UDP packet over IPv4 with that protocol number, to that port, with this payload. -/
def udpPacket (payload : List Byte) : SkBuff where
  mem := fun i =>
    ([2, 0, 0, 0, 0, 1, 2, 0, 0, 0, 0, 2, 8, 0,
      0x45, 0, 0, BitVec.ofNat 8 (28 + payload.length), 0, 0, 0, 0, 64, 17, 0, 0,
      10, 0, 0, 2, 10, 0, 0, 1,
      0x13, 0x88, 0, 53, 0, BitVec.ofNat 8 (8 + payload.length), 0, 0] ++ payload).getD i 0
  mac := 0
  network := 14
  transport := 34
  ifaList := [[10, 0, 0, 1]]
  acList := []

/-- While the lengths fit into one byte. -/
theorem udpPacket_datagram {payload : List Byte} (h : payload.length < 228) :
    UdpDatagram (udpPacket payload) dnsFixedPort payload := by
  refine ⟨.inl ⟨rfl, rfl⟩, Nat.le_refl _, Nat.le_refl _, rfl, ?_, ?_⟩
  · change 2 ^ 8 * 0 + (BitVec.ofNat 8 (8 + payload.length)).toNat = _
    rw [BitVec.toNat_ofNat]
    omega
  · refine List.ext_getElem (Mem.bytes_length _ _ _) fun i _ hi => ?_
    rw [Mem.bytes_getElem]
    refine (Buf.mem_append_right (n := 42) rfl i).trans ?_
    unfold Buf.mem
    rw [List.getD_eq_getElem?_getD, List.getElem?_eq_getElem hi, Option.getD_some]

/-- A query with one question, for the addresses of a name. -/
def query (labels : List (List Byte)) : List Byte :=
  [0, 7, 1, 0, 0, 1, 0, 0, 0, 0, 0, 0] ++ Dns.nameBytes labels ++ [0, 1, 0, 1]

/-- A query for another name, which is looked at. -/
theorem recognised_other : Recognised .big (udpPacket (query [[97]])) (query [[97]]) := by
  have hpart : ∀ k < 14, 6 ≤ k → ¬ routeUrl.take k <:+ query [[97]] := by decide
  refine (recognised_iff (udpPacket_datagram (by decide))).mpr ⟨fun _ => .inr ⟨by decide, ?_,
    by decide⟩, fun _ => by decide⟩
  rintro ⟨k, hsix, hlt, htext⟩
  exact hpart k hlt hsix htext

/-- The query for the route is not recognised, on a host of either byte order. -/
theorem route_unrecognised :
    qname (query (routeUrl.splitOn 0x2e)) = some routeName ∧
      ¬ Recognised .little (udpPacket (query (routeUrl.splitOn 0x2e)))
        (query (routeUrl.splitOn 0x2e)) ∧
      ¬ Recognised .big (udpPacket (query (routeUrl.splitOn 0x2e)))
        (query (routeUrl.splitOn 0x2e)) := by
  have hname : qname (query (routeUrl.splitOn 0x2e)) = some routeName := by decide
  refine ⟨hname, fun h => ?_, fun h => ?_⟩
  · have hsays := h.1.mpr hname
    exact absurd hsays (by decide)
  · have hsays := h.1.mpr hname
    exact absurd hsays (by decide)

end Server
end Xsky
