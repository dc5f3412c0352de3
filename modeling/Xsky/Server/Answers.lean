import Xsky.Server.Queries

/-!
# Server.Answers

`skb_recv_dns`: the query it is called with becomes the answer, in place.

The answer record goes to the end of the packet and the answer count becomes 1, whatever records
follow the question; and every packet is handled as one over IPv4. `dev_queue_xmit` gets it as the
hook had it, with `data` at the network header, so the Ethernet header is not sent. `none` is a
fault: no address of the device, no room behind the packet, or a packet with page fragments, to
which `skb_put` can add nothing.

* `never_answered`      — no answer goes out as a frame.
* `answered_payload`    — when the message that results has the answer where its counts say.
* `packet_answered_iff` — when the packet behind the Ethernet header is the answer to the query.
-/

namespace Xsky
namespace Server

open Kit

/-- A `struct sk_buff` as the hook has it, with `data` at the network header. The last of its `len`
bytes are in page fragments. -/
structure HookSkb extends SkBuff where
  len : Nat
  frags : List Byte
  tailroom : Nat
  devAddr : List Byte
  csum : BitVec 32

/-- The checksum functions of the kernel; `skb_checksum` and `ip_fast_csum` see the memory from
`data` or the header on. -/
structure Kernel where
  skbChecksum : Mem → Nat → Nat → BitVec 32
  csumTcpudpMagic : List Byte → List Byte → Nat → BitVec 32 → BitVec 16
  ipFastCsum : Mem → Nat → BitVec 16

/-- `dns_name`, with the local address in it. -/
def dnsName (localIp : List Byte) : List Byte :=
  [0xc0, 0x0c, 0x00, 0x01, 0x00, 0x01, 0x00, 0x00, 0x00, 0x00, 0x00, 0x04] ++ localIp

/-- `sizeof( dns_name )` -/
def sizeofDnsName : Nat := 16

/-- Two areas of `n` bytes exchanged through a third. -/
def exchange (m : Mem) (a b n : Nat) : Mem :=
  let tmp := fun i => m (a + i)
  let m := m.fill a n fun i => m (b + i)
  m.fill b n tmp

namespace HookSkb

variable (skb : HookSkb)

/-- `skb_headlen` -/
def headlen : Nat := skb.len - skb.frags.length

/-- `skb_tail_pointer` -/
def tail : Nat := skb.network + skb.headlen

/-- The bytes of the packet, which `dev_queue_xmit` sends. -/
def packet : Buf := skb.mem.bytes skb.network skb.headlen ++ skb.frags

/-- The packet as a frame, from its Ethernet header on. -/
def frame : Buf := skb.mem.bytes skb.mac 14 ++ skb.packet

end HookSkb

section Parts

variable (o : ByteOrder) (skb : HookSkb)

/-- `// dns` -/
def answerDns (localIp : List Byte) (m : Mem) : Mem :=
  let dns := skb.transport + 8
  let m := o.put16 m (dns + 2) (o.hton16 0x8580)
  let m := o.put16 m (dns + 6) (o.hton16 1)
  m.fill skb.tail sizeofDnsName fun i => (dnsName localIp).getD i 0

/-- `// udp` -/
def answerUdp (m : Mem) : Mem :=
  let udp := skb.transport
  let m := exchange m udp (udp + 2) 2
  o.put16 m (udp + 4) (o.hton16 (BitVec.ofNat 16 (m.be16 (udp + 4) + sizeofDnsName)))

/-- `// ip` -/
def answerIp (m : Mem) : Mem :=
  let ip := skb.network
  let m := exchange m (ip + 12) (ip + 16) 4
  let m := o.put16 m (ip + 4) 0
  let m := o.put16 m (ip + 6) (o.hton16 0x4000)
  o.put16 m (ip + 2) (o.hton16 (BitVec.ofNat 16 (m.be16 (ip + 2) + sizeofDnsName)))

/-- `// eth` -/
def answerEth (m : Mem) : Mem := exchange m (skb.mac + 6) skb.mac 6

/-- The checksums of a packet of `len` bytes. -/
def answerChecks (k : Kernel) (len : Nat) (m : Mem) : BitVec 32 × Mem :=
  let ip := skb.network
  let hlen := (m ip).toNat % 16 * 4
  let csum := k.skbChecksum (fun i => m (ip + i)) hlen (len - hlen)
  let m := o.put16 m (skb.transport + 6)
    (k.csumTcpudpMagic (m.bytes (ip + 12) 4) (m.bytes (ip + 16) 4) (len - hlen) csum)
  let m := o.put16 m (ip + 10) 0
  (csum, o.put16 m (ip + 10) (k.ipFastCsum (fun i => m (ip + i)) (hlen / 4)))

/-- The packet that is given to `dev_queue_xmit`. -/
def skbRecvDns (k : Kernel) : Option HookSkb :=
  match skb.ifaList with
  | [] => none
  | localIp :: _ =>
    if skb.frags ≠ [] ∨ skb.tailroom < sizeofDnsName then none
    else
      let len := skb.len + sizeofDnsName
      let m := answerEth skb (answerIp o skb (answerUdp o skb (answerDns o skb localIp skb.mem)))
      let (csum, m) := answerChecks o skb k len m
      some { skb with mem := m, len := len, tailroom := skb.tailroom - sizeofDnsName, csum := csum }

end Parts

/-! ## The message -/

/-- An A record with that address. -/
def IsAddress (localIp : List Byte) (a : Dns.Record) : Prop :=
  a.type = 1 ∧ a.cls = 1 ∧ a.rdata = localIp

/-- The message is a response to the query: the same id and question, and one answer, the
address. -/
def Responds (localIp : List Byte) (q : Dns.Message) (payload : List Byte) : Prop :=
  ∃ r a, Dns.parse payload = some r ∧ r.id = q.id ∧ 2 ^ 15 ≤ r.flags ∧ r.questions = q.questions ∧
    r.answers = [a] ∧ IsAddress localIp a

/-- What `skb_recv_dns` makes of a message. -/
def answered (localIp payload : List Byte) : List Byte :=
  payload.take 2 ++ [0x85, 0x80] ++ (payload.drop 4).take 2 ++ [0, 1] ++ payload.drop 8 ++
    dnsName localIp

/-- The record that is appended. -/
def answerRecord (localIp : List Byte) : Dns.Record := ⟨[0xc0, 0x0c], 1, 1, [0, 0, 0, 0], localIp⟩

theorem takeRecord_dnsName {localIp : List Byte} (h : localIp.length = 4) :
    Dns.takeRecord (dnsName localIp) = some (answerRecord localIp, []) := by
  have hname : Dns.takeName 0 (dnsName localIp) =
      some ([0xc0, 0x0c], [0, 1, 0, 1, 0, 0, 0, 0, 0, 4] ++ localIp) := rfl
  unfold Dns.takeRecord
  rw [hname]
  simp [Dns.num16, answerRecord, h, List.take_of_length_le]

/-- The records of all sections are the first `n` ones after the question. -/
theorem sections_split {m n : Nat} {bs rest : List Byte} {cs : List Dns.Record}
    (h : Dns.takeMany Dns.takeRecord (m + n) bs = some (cs, rest)) :
    ∃ as bs1 mid, Dns.takeMany Dns.takeRecord m bs = some (as, mid) ∧
      Dns.takeMany Dns.takeRecord n mid = some (bs1, rest) ∧ cs = as ++ bs1 := by
  rw [Dns.takeMany_add] at h
  split at h
  · cases h
  · rename_i as mid has
    rw [Option.map_eq_some_iff] at h
    obtain ⟨⟨bs1, rest1⟩, hbs, heq⟩ := h
    cases heq
    exact ⟨as, bs1, mid, has, hbs, rfl⟩

theorem sections_join {m n : Nat} {bs mid rest : List Byte} {as bs1 : List Dns.Record}
    (h1 : Dns.takeMany Dns.takeRecord m bs = some (as, mid))
    (h2 : Dns.takeMany Dns.takeRecord n mid = some (bs1, rest)) :
    Dns.takeMany Dns.takeRecord (m + n) bs = some (as ++ bs1, rest) := by
  rw [Dns.takeMany_add, h1]
  simp only [h2, Option.map_some]

/-- What the appended record does to the sections: they are taken from the records there were, and
that one behind them. -/
theorem sections_answered {localIp bs : List Byte} {an ns ar : Nat}
    {answers authority additional : List Dns.Record} (hlocal : localIp.length = 4)
    (han : answers.length = an)
    (hall : Dns.takeMany Dns.takeRecord (an + (ns + ar)) bs =
      some (answers ++ (authority ++ additional), [])) :
    (∃ a others, Dns.takeMany Dns.takeRecord (1 + (ns + ar)) (bs ++ dnsName localIp) =
        some (a :: others, []) ∧ IsAddress localIp a) ↔
      answers = [] ∧ ∀ a, (authority ++ additional).head? = some a → IsAddress localIp a := by
  have hrecord : Dns.takeMany Dns.takeRecord 1 (dnsName localIp) =
      some ([answerRecord localIp], []) := by
    simp only [Dns.takeMany, takeRecord_dnsName hlocal, Option.map_some]
  have hmore : Dns.takeMany Dns.takeRecord (an + (ns + ar) + 1) (bs ++ dnsName localIp) =
      some (answers ++ (authority ++ additional) ++ [answerRecord localIp], []) :=
    sections_join (Dns.takes_many Dns.takes_record _ _ _ _ hall _) hrecord
  cases an with
  | zero =>
    have hnil : answers = [] := List.eq_nil_of_length_eq_zero han
    rw [hnil, List.nil_append, show 0 + (ns + ar) + 1 = 1 + (ns + ar) by omega] at hmore
    simp only [hmore, hnil, Option.some.injEq, Prod.mk.injEq, and_true, true_and]
    cases hrecords : authority ++ additional with
    | nil =>
      refine iff_of_true ⟨answerRecord localIp, [], rfl, rfl, rfl, rfl⟩ fun a ha => ?_
      cases ha
    | cons a others =>
      constructor
      · intro h
        obtain ⟨a', others', heq, haddr⟩ := h
        cases heq
        intro b hb
        cases hb
        exact haddr
      · intro h
        exact ⟨a, others ++ [answerRecord localIp], rfl, h a rfl⟩
  | succ an =>
    -- one record fewer is taken than there are
    have hne : answers ≠ [] := by
      intro hnil
      rw [hnil] at han
      cases han
    refine iff_of_false (fun h => ?_) fun h => hne h.1
    obtain ⟨a, others, htake, -⟩ := h
    rw [show an + 1 + (ns + ar) = 1 + (ns + ar) + an by omega] at hall
    obtain ⟨as, _, mid, has, -, -⟩ := sections_split hall
    rw [Dns.takes_many Dns.takes_record _ _ _ _ has] at htake
    simp only [Option.some.injEq, Prod.mk.injEq, List.append_eq_nil_iff] at htake
    exact absurd htake.2.2 (by simp [dnsName])

theorem answered_payload {localIp payload : List Byte} {q : Dns.Message} {q0 : Dns.Question}
    (hlocal : localIp.length = 4) (hq : Dns.parse payload = some q) (hone : q.questions = [q0]) :
    Responds localIp q (answered localIp payload) ↔
      q.answers = [] ∧ ∀ a, (q.authority ++ q.additional).head? = some a → IsAddress localIp a := by
  unfold Dns.parse at hq
  split at hq
  · rename_i i1 i2 f1 f2 q1 q2 a1 a2 n1 n2 r1 r2 bs
    simp only [Option.bind_eq_bind, Option.bind_eq_some_iff, Prod.exists] at hq
    obtain ⟨questions, bs1, hquestions, answers, bs2, hanswers, authority, bs3, hauthority,
      additional, bs4, hadditional, hq⟩ := hq
    split at hq
    · rename_i hend
      cases hq
      subst hend
      have hbytes : answered localIp (i1 :: i2 :: f1 :: f2 :: q1 :: q2 :: a1 :: a2 :: n1 :: n2 ::
          r1 :: r2 :: bs) = i1 :: i2 :: 0x85 :: 0x80 :: q1 :: q2 :: 0 :: 1 :: n1 :: n2 :: r1 ::
          r2 :: (bs ++ dnsName localIp) := rfl
      have hquestions' := Dns.takes_many Dns.takes_question _ _ _ _ hquestions (dnsName localIp)
      rw [← sections_answered hlocal (Dns.takeMany_length hanswers)
        (sections_join hanswers (sections_join hauthority hadditional))]
      unfold Responds
      rw [hbytes]
      simp only [Dns.parse, hquestions', Option.bind_eq_bind, Option.bind_some]
      constructor
      · intro h
        obtain ⟨r, a, hparse, -, -, -, hr, haddr⟩ := h
        simp only [Option.bind_eq_some_iff, Prod.exists] at hparse
        obtain ⟨answers', mid1, h1, authority', mid2, h2, additional', mid3, h3, hparse⟩ := hparse
        split at hparse
        · rename_i hnil
          cases hparse
          subst hnil
          simp only at hr
          subst hr
          exact ⟨a, authority' ++ additional', sections_join h1 (sections_join h2 h3), haddr⟩
        · cases hparse
      · intro h
        obtain ⟨a, others, htake, haddr⟩ := h
        obtain ⟨as, rest, mid1, h1, htail, heq⟩ := sections_split htake
        obtain ⟨authority', additional', mid2, h2, h3, hrest⟩ := sections_split htail
        have hlen := Dns.takeMany_length h1
        obtain ⟨a', rfl⟩ := List.length_eq_one_iff.mp hlen
        cases heq
        have hflags : 2 ^ 15 ≤ Dns.num16 0x85 0x80 := by decide
        refine ⟨⟨Dns.num16 i1 i2, Dns.num16 0x85 0x80, questions, [a], authority', additional'⟩,
          a, ?_, rfl, hflags, rfl, rfl, haddr⟩
        have hcount : Dns.num16 0 1 = 1 := rfl
        simp only [hcount, h1, h2, h3, Option.bind_some, if_true]
    · cases hq
  · cases hq

/-! ## The packet -/

/-- A datagram for the DNS port as the network stack hands it on, in linear memory: without anything
behind it, and with its length in the IP header. -/
structure HookDatagram (skb : HookSkb) (payload : List Byte) : Prop where
  linear : skb.frags = []
  udp : UdpDatagram skb.toSkBuff dnsFixedPort payload
  tail : skb.tail = skb.udpPayload + payload.length
  totLen : skb.mem.be16 (skb.mac + 12) = ethTypeIpv4.toNat →
    skb.mem.be16 (skb.network + 2) = skb.len
  payloadLen : skb.mem.be16 (skb.mac + 12) = ethTypeIpv6.toNat →
    skb.network + 40 ≤ skb.transport ∧ skb.mem.be16 (skb.network + 4) + 40 = skb.len
  addrLen : ∀ a ∈ skb.ifaList, a.length = 4

/-- The packet `skb'`, from its network header on, is the answer to `skb`. -/
structure PacketAnswered (localIp : List Byte) (q : Dns.Message) (skb skb' : HookSkb) : Prop where
  responds : Responds localIp q (skb'.mem.bytes skb'.udpPayload (skb'.tail - skb'.udpPayload))
  ports : skb'.mem.bytes skb'.transport 2 = skb.mem.bytes (skb.transport + 2) 2 ∧
    skb'.mem.bytes (skb'.transport + 2) 2 = skb.mem.bytes skb.transport 2
  addrs4 : skb.mem.be16 (skb.mac + 12) = ethTypeIpv4.toNat →
    skb'.ipSaddr = skb.ipDaddr ∧ skb'.ipDaddr = skb.ipSaddr
  addrs6 : skb.mem.be16 (skb.mac + 12) = ethTypeIpv6.toNat →
    skb'.ip6Saddr = skb.ip6Daddr ∧ skb'.ip6Daddr = skb.ip6Saddr
  udpLen : skb'.udpLen = skb'.tail - skb'.transport
  totLen : skb.mem.be16 (skb.mac + 12) = ethTypeIpv4.toNat →
    skb'.mem.be16 (skb'.network + 2) = skb'.tail - skb'.network
  payloadLen : skb.mem.be16 (skb.mac + 12) = ethTypeIpv6.toNat →
    skb'.mem.be16 (skb'.network + 4) = skb'.tail - (skb'.network + 40)

/-- What `sent` is of `skb'` is the answer to `skb`: all of the frame, with the MACs swapped. -/
structure Answered (localIp : List Byte) (q : Dns.Message) (skb skb' : HookSkb) (sent : Buf) :
    Prop extends PacketAnswered localIp q skb skb' where
  framed : sent = skb'.frame
  macs : sent.take 6 = skb.mem.bytes (skb.mac + 6) 6 ∧
    (sent.drop 6).take 6 = skb.mem.bytes skb.mac 6

/-- `skb_recv_dns` sends the answer to the query, with an address of the device. -/
def Answers (k : Kernel) (o : ByteOrder) (skb : HookSkb) (q : Dns.Message) : Prop :=
  ∃ localIp skb', skb.ifaList.head? = some localIp ∧ skbRecvDns o skb k = some skb' ∧
    Answered localIp q skb skb' skb'.packet

/-- The same, but for the Ethernet header. -/
def PacketAnswers (k : Kernel) (o : ByteOrder) (skb : HookSkb) (q : Dns.Message) : Prop :=
  ∃ localIp skb', skb.ifaList.head? = some localIp ∧ skbRecvDns o skb k = some skb' ∧
    PacketAnswered localIp q skb skb'

/-- The packet is over IPv4, has no record behind the question that is taken for the answer, and
has room for another 16 bytes. -/
structure Answerable (skb : HookSkb) (q : Dns.Message) : Prop where
  ipv4 : skb.mem.be16 (skb.mac + 12) = ethTypeIpv4.toNat
  addressed : skb.ifaList ≠ []
  room : sizeofDnsName ≤ skb.tailroom
  fits : skb.len + sizeofDnsName < 2 ^ 16
  answers : q.answers = []
  records : ∀ localIp a, skb.ifaList.head? = some localIp →
    (q.authority ++ q.additional).head? = some a → IsAddress localIp a

theorem exchange_at (m : Mem) (a b n x : Nat) :
    exchange m a b n x =
      if b ≤ x ∧ x < b + n then m (a + (x - b))
      else if a ≤ x ∧ x < a + n then m (b + (x - a)) else m x := rfl

theorem exchange_bytes (m : Mem) {a b n : Nat} (h : a + n ≤ b ∨ b + n ≤ a) :
    (exchange m a b n).bytes a n = m.bytes b n ∧ (exchange m a b n).bytes b n = m.bytes a n := by
  constructor
  · refine Mem.bytes_congr fun i hi => ?_
    rw [exchange_at, if_neg (by omega), if_pos (by omega), Nat.add_sub_cancel_left]
  · refine Mem.bytes_congr fun i hi => ?_
    rw [exchange_at, if_pos (by omega), Nat.add_sub_cancel_left]

theorem exchange_other (m : Mem) {a b n x : Nat} (ha : x < a ∨ a + n ≤ x)
    (hb : x < b ∨ b + n ≤ x) : exchange m a b n x = m x := by
  rw [exchange_at, if_neg (by omega), if_neg (by omega)]

/-- Two bytes that are left alone are the same number. -/
theorem be16_congr {m m' : Mem} {a : Nat} (h0 : m' a = m a) (h1 : m' (a + 1) = m (a + 1)) :
    m'.be16 a = m.be16 a := by
  unfold Mem.be16
  rw [h0, h1]

section Frames

variable {o : ByteOrder} {skb : HookSkb} {m : Mem} {x : Nat}

theorem answerDns_other {localIp : List Byte}
    (hflags : x < skb.transport + 10 ∨ skb.transport + 12 ≤ x)
    (hcount : x < skb.transport + 14 ∨ skb.transport + 16 ≤ x)
    (htail : x < skb.tail ∨ skb.tail + 16 ≤ x) : answerDns o skb localIp m x = m x := by
  unfold answerDns sizeofDnsName
  rw [Mem.fill_at, if_neg (by omega), ByteOrder.put16_other (by omega),
    ByteOrder.put16_other (by omega)]

theorem answerUdp_other (h : x < skb.transport ∨ skb.transport + 6 ≤ x) :
    answerUdp o skb m x = m x := by
  unfold answerUdp
  rw [ByteOrder.put16_other (by omega), exchange_other _ (by omega) (by omega)]

theorem answerIp_other (h : x < skb.network + 2 ∨ skb.network + 20 ≤ x) :
    answerIp o skb m x = m x := by
  unfold answerIp
  rw [ByteOrder.put16_other (by omega), ByteOrder.put16_other (by omega),
    ByteOrder.put16_other (by omega), exchange_other _ (by omega) (by omega)]

theorem answerEth_other (h : x < skb.mac ∨ skb.mac + 12 ≤ x) : answerEth skb m x = m x := by
  unfold answerEth
  rw [exchange_other _ (by omega) (by omega)]

theorem answerChecks_other {k : Kernel} {len : Nat}
    (hudp : x < skb.transport + 6 ∨ skb.transport + 8 ≤ x)
    (hip : x < skb.network + 10 ∨ skb.network + 12 ≤ x) :
    (answerChecks o skb k len m).2 x = m x := by
  unfold answerChecks
  simp only
  rw [ByteOrder.put16_other (by omega), ByteOrder.put16_other (by omega),
    ByteOrder.put16_other (by omega)]

end Frames

/-- The memory `skb_recv_dns` leaves. -/
def answerMem (o : ByteOrder) (skb : HookSkb) (k : Kernel) (localIp : List Byte) : Mem :=
  (answerChecks o skb k (skb.len + sizeofDnsName)
    (answerEth skb (answerIp o skb (answerUdp o skb (answerDns o skb localIp skb.mem))))).2

theorem skbRecvDns_some {o : ByteOrder} {skb skb' : HookSkb} {k : Kernel}
    (h : skbRecvDns o skb k = some skb') :
    ∃ localIp, skb.ifaList.head? = some localIp ∧ sizeofDnsName ≤ skb.tailroom ∧
      skb'.mem = answerMem o skb k localIp ∧ skb'.mac = skb.mac ∧ skb'.network = skb.network ∧
      skb'.transport = skb.transport ∧ skb'.tail = skb.tail + sizeofDnsName := by
  unfold skbRecvDns at h
  split at h
  · cases h
  · rename_i localIp rest hlist
    split at h
    · cases h
    · rename_i hroom
      cases h
      rw [not_or, Decidable.not_not, Nat.not_lt] at hroom
      refine ⟨localIp, by rw [hlist]; rfl, hroom.2, rfl, rfl, rfl, rfl, ?_⟩
      unfold HookSkb.tail HookSkb.headlen
      dsimp only
      rw [hroom.1, List.length_nil, Nat.sub_zero, Nat.sub_zero, Nat.add_assoc]

theorem skbRecvDns_of_room {o : ByteOrder} {skb : HookSkb} (k : Kernel)
    (hlinear : skb.frags = []) (haddr : skb.ifaList ≠ []) (hroom : sizeofDnsName ≤ skb.tailroom) :
    ∃ skb', skbRecvDns o skb k = some skb' := by
  unfold skbRecvDns
  split
  · rename_i hnil
    exact absurd hnil haddr
  · rw [if_neg (by rw [not_or, Decidable.not_not, Nat.not_lt]; exact ⟨hlinear, hroom⟩)]
    exact ⟨_, rfl⟩

/-! ## What is sent -/

theorem answerUdp_values (o : ByteOrder) (skb : HookSkb) (m : Mem) :
    (answerUdp o skb m).bytes skb.transport 2 = m.bytes (skb.transport + 2) 2 ∧
      (answerUdp o skb m).bytes (skb.transport + 2) 2 = m.bytes skb.transport 2 ∧
      (answerUdp o skb m).be16 (skb.transport + 4) =
        (m.be16 (skb.transport + 4) + 16) % 2 ^ 16 := by
  obtain ⟨hsource, hdest⟩ := exchange_bytes m
    (show skb.transport + 2 ≤ skb.transport + 2 ∨ skb.transport + 2 + 2 ≤ skb.transport by omega)
  have hlen : (exchange m skb.transport (skb.transport + 2) 2).be16 (skb.transport + 4) =
      m.be16 (skb.transport + 4) :=
    be16_congr (exchange_other _ (by omega) (by omega)) (exchange_other _ (by omega) (by omega))
  unfold answerUdp
  refine ⟨?_, ?_, ?_⟩
  · exact (Mem.bytes_congr fun i hi => ByteOrder.put16_other (by omega)).trans hsource
  · exact (Mem.bytes_congr fun i hi => ByteOrder.put16_other (by omega)).trans hdest
  · simp only [ByteOrder.put16_be16, hlen, sizeofDnsName, BitVec.toNat_ofNat]

theorem answerIp_values (o : ByteOrder) (skb : HookSkb) (m : Mem) :
    (answerIp o skb m).bytes (skb.network + 12) 4 = m.bytes (skb.network + 16) 4 ∧
      (answerIp o skb m).bytes (skb.network + 16) 4 = m.bytes (skb.network + 12) 4 ∧
      (answerIp o skb m).be16 (skb.network + 2) =
        (m.be16 (skb.network + 2) + 16) % 2 ^ 16 ∧
      (answerIp o skb m).be16 (skb.network + 4) = 0 := by
  obtain ⟨hsaddr, hdaddr⟩ := exchange_bytes m
    (show skb.network + 12 + 4 ≤ skb.network + 16 ∨ skb.network + 16 + 4 ≤ skb.network + 12 by
      omega)
  have hzero : o.hton16 0 = 0 := by
    cases o with
    | little => rfl
    | big => rfl
  unfold answerIp
  refine ⟨?_, ?_, ?_, ?_⟩
  · refine (Mem.bytes_congr fun i hi => ?_).trans hsaddr
    rw [ByteOrder.put16_other (by omega), ByteOrder.put16_other (by omega),
      ByteOrder.put16_other (by omega)]
  · refine (Mem.bytes_congr fun i hi => ?_).trans hdaddr
    rw [ByteOrder.put16_other (by omega), ByteOrder.put16_other (by omega),
      ByteOrder.put16_other (by omega)]
  · simp only [ByteOrder.put16_be16, sizeofDnsName, BitVec.toNat_ofNat]
    congr 2
    refine be16_congr ?_ ?_
    · rw [ByteOrder.put16_other (by omega), ByteOrder.put16_other (by omega),
        exchange_other _ (by omega) (by omega)]
    · rw [ByteOrder.put16_other (by omega), ByteOrder.put16_other (by omega),
        exchange_other _ (by omega) (by omega)]
  · have hput := ByteOrder.put16_be16 o (exchange m (skb.network + 12) (skb.network + 16) 4)
      (skb.network + 4) 0
    rw [hzero] at hput
    refine Eq.trans (be16_congr ?_ ?_) hput
    · rw [ByteOrder.put16_other (by omega), ByteOrder.put16_other (by omega)]
    · rw [ByteOrder.put16_other (by omega), ByteOrder.put16_other (by omega)]

section Outcome

variable {o : ByteOrder} {skb : HookSkb} {payload : List Byte} {k : Kernel} {localIp : List Byte}

theorem HookDatagram.layout (h : HookDatagram skb payload) :
    skb.mac + 14 ≤ skb.network ∧ skb.network + 20 ≤ skb.transport ∧
      skb.tail = skb.transport + 8 + payload.length :=
  ⟨h.udp.macAt, h.udp.networkAt, h.tail⟩

theorem HookDatagram.tail_eq (h : HookDatagram skb payload) : skb.tail = skb.network + skb.len := by
  unfold HookSkb.tail HookSkb.headlen
  rw [h.linear, List.length_nil, Nat.sub_zero]

/-- The header of IP, taken for one of version 4. -/
theorem answerMem_ip (h : HookDatagram skb payload) :
    (answerMem o skb k localIp).bytes (skb.network + 12) 4 = skb.mem.bytes (skb.network + 16) 4 ∧
      (answerMem o skb k localIp).bytes (skb.network + 16) 4 =
        skb.mem.bytes (skb.network + 12) 4 ∧
      (answerMem o skb k localIp).be16 (skb.network + 2) =
        (skb.mem.be16 (skb.network + 2) + 16) % 2 ^ 16 ∧
      (answerMem o skb k localIp).be16 (skb.network + 4) = 0 := by
  obtain ⟨hmac, hnet, htail⟩ := h.layout
  have hlate : ∀ x, skb.network ≤ x → x < skb.network + 20 →
      (x < skb.network + 10 ∨ skb.network + 12 ≤ x) → (answerMem o skb k localIp) x =
        answerIp o skb (answerUdp o skb (answerDns o skb localIp skb.mem)) x := by
    intro x hlow hx hcheck
    unfold answerMem
    rw [answerChecks_other (by omega) hcheck, answerEth_other (by omega)]
  have hearly : ∀ x, x < skb.network + 20 →
      answerUdp o skb (answerDns o skb localIp skb.mem) x = skb.mem x := by
    intro x hx
    rw [answerUdp_other (by omega), answerDns_other (by omega) (by omega) (by omega)]
  obtain ⟨hsaddr, hdaddr, htot, hid⟩ :=
    answerIp_values o skb (answerUdp o skb (answerDns o skb localIp skb.mem))
  refine ⟨?_, ?_, ?_, ?_⟩
  · exact (Mem.bytes_congr fun i hi => hlate _ (by omega) (by omega) (by omega)).trans
      (hsaddr.trans (Mem.bytes_congr fun i hi => hearly _ (by omega)))
  · exact (Mem.bytes_congr fun i hi => hlate _ (by omega) (by omega) (by omega)).trans
      (hdaddr.trans (Mem.bytes_congr fun i hi => hearly _ (by omega)))
  · rw [be16_congr (hlate _ (by omega) (by omega) (by omega))
      (hlate _ (by omega) (by omega) (by omega)), htot,
      be16_congr (hearly _ (by omega)) (hearly _ (by omega))]
  · rw [be16_congr (hlate _ (by omega) (by omega) (by omega))
      (hlate _ (by omega) (by omega) (by omega)), hid]

theorem answerMem_udp (h : HookDatagram skb payload) :
    (answerMem o skb k localIp).bytes skb.transport 2 = skb.mem.bytes (skb.transport + 2) 2 ∧
      (answerMem o skb k localIp).bytes (skb.transport + 2) 2 = skb.mem.bytes skb.transport 2 ∧
      (answerMem o skb k localIp).be16 (skb.transport + 4) =
        (skb.mem.be16 (skb.transport + 4) + 16) % 2 ^ 16 := by
  obtain ⟨hmac, hnet, htail⟩ := h.layout
  have hlate : ∀ x, skb.transport ≤ x → x < skb.transport + 6 →
      (answerMem o skb k localIp) x =
        answerUdp o skb (answerDns o skb localIp skb.mem) x := by
    intro x hlow hx
    unfold answerMem
    rw [answerChecks_other (by omega) (by omega), answerEth_other (by omega),
      answerIp_other (by omega)]
  have hearly : ∀ x, x < skb.transport + 6 → answerDns o skb localIp skb.mem x = skb.mem x :=
    fun x hx => answerDns_other (by omega) (by omega) (by omega)
  obtain ⟨hsource, hdest, hlen⟩ := answerUdp_values o skb (answerDns o skb localIp skb.mem)
  refine ⟨?_, ?_, ?_⟩
  · exact (Mem.bytes_congr fun i hi => hlate _ (by omega) (by omega)).trans
      (hsource.trans (Mem.bytes_congr fun i hi => hearly _ (by omega)))
  · exact (Mem.bytes_congr fun i hi => hlate _ (by omega) (by omega)).trans
      (hdest.trans (Mem.bytes_congr fun i hi => hearly _ (by omega)))
  · rw [be16_congr (hlate _ (by omega) (by omega)) (hlate _ (by omega) (by omega)), hlen,
      be16_congr (hearly _ (by omega)) (hearly _ (by omega))]

/-- The payload, with the record behind it. -/
theorem answerMem_payload (h : HookDatagram skb payload) (hlocal : localIp.length = 4)
    (hlen : 8 ≤ payload.length) :
    (answerMem o skb k localIp).bytes (skb.transport + 8) (payload.length + 16) =
      answered localIp payload := by
  obtain ⟨hmac, hnet, htail⟩ := h.layout
  have hlate : ∀ x, skb.transport + 8 ≤ x → (answerMem o skb k localIp) x =
      answerDns o skb localIp skb.mem x := by
    intro x hx
    unfold answerMem
    rw [answerChecks_other (by omega) (by omega), answerEth_other (by omega),
      answerIp_other (by omega), answerUdp_other (by omega)]
  have hkept : ∀ a n, (a + n ≤ skb.transport + 10 ∨ skb.transport + 12 ≤ a) →
      (a + n ≤ skb.transport + 14 ∨ skb.transport + 16 ≤ a) → a + n ≤ skb.tail →
      (answerDns o skb localIp skb.mem).bytes a n = skb.mem.bytes a n := by
    intro a n hflags hcount hend
    exact Mem.bytes_congr fun i hi => answerDns_other (by omega) (by omega) (by omega)
  have hflags : (answerDns o skb localIp skb.mem).bytes (skb.transport + 10) 2 = [0x85, 0x80] := by
    refine Eq.trans (Mem.bytes_congr fun i hi => ?_)
      ((ByteOrder.put16_bytes o skb.mem (skb.transport + 10) (o.hton16 0x8580)).trans
        (o.store16_hton16 _))
    unfold answerDns sizeofDnsName
    rw [Mem.fill_at, if_neg (by omega), ByteOrder.put16_other (by omega)]
  have hcount : (answerDns o skb localIp skb.mem).bytes (skb.transport + 14) 2 = [0, 1] := by
    refine Eq.trans (Mem.bytes_congr fun i hi => ?_)
      ((ByteOrder.put16_bytes o (o.put16 skb.mem (skb.transport + 10) (o.hton16 0x8580))
        (skb.transport + 14) (o.hton16 1)).trans (o.store16_hton16 _))
    unfold answerDns sizeofDnsName
    rw [Mem.fill_at, if_neg (by omega)]
  have hrecord : (answerDns o skb localIp skb.mem).bytes skb.tail 16 = dnsName localIp := by
    exact Mem.bytes_fill _ _ (by simp [dnsName, hlocal, sizeofDnsName])
  have hpayload := h.udp.payload
  unfold SkBuff.udpPayload at hpayload
  have hfront : payload.take 2 = skb.mem.bytes (skb.transport + 8) 2 := by
    rw [← hpayload, Mem.bytes_take _ _ (by omega)]
  have hmiddle : (payload.drop 4).take 2 = skb.mem.bytes (skb.transport + 12) 2 := by
    rw [← hpayload, Mem.bytes_drop _ _ (by omega), Mem.bytes_take _ _ (by omega)]
  have hback : payload.drop 8 = skb.mem.bytes (skb.transport + 16) (payload.length - 8) := by
    rw [← hpayload, Mem.bytes_drop _ _ (by omega), Mem.bytes_length]
  unfold answered
  rw [hfront, hmiddle, hback, ← hflags, ← hcount, ← hrecord,
    ← hkept _ 2 (by omega) (by omega) (by omega),
    ← hkept (skb.transport + 12) 2 (by omega) (by omega) (by omega),
    ← hkept (skb.transport + 16) _ (by omega) (by omega) (by omega),
    Mem.bytes_append, Mem.bytes_append, Mem.bytes_append, Mem.bytes_append,
    show skb.tail = skb.transport + 8 + (2 + 2 + 2 + 2 + (payload.length - 8)) by omega,
    Mem.bytes_append]
  rw [show 2 + 2 + 2 + 2 + (payload.length - 8) + 16 = payload.length + 16 by omega]
  exact Mem.bytes_congr fun i hi => hlate _ (by omega)

end Outcome

theorem parse_length {payload : List Byte} {q : Dns.Message} (h : Dns.parse payload = some q) :
    12 ≤ payload.length := by
  unfold Dns.parse at h
  split at h
  · simp
  · cases h

section Answers

variable {k : Kernel} {o : ByteOrder} {skb : HookSkb} {payload : List Byte} {q : Dns.Message}
  {q0 : Dns.Question}

theorem answerable_of_answers (h : HookDatagram skb payload) (hq : Dns.parse payload = some q)
    (hone : q.questions = [q0]) (hanswers : PacketAnswers k o skb q) : Answerable skb q := by
  obtain ⟨hmac, hnet, htail⟩ := h.layout
  have hlen := parse_length hq
  have htailLen := h.tail_eq
  obtain ⟨localIp, skb', hhead, hsend, hanswered⟩ := hanswers
  obtain ⟨localIp', hhead', hroom, hmem, hmac', hnet', htransport, htail'⟩ :=
    skbRecvDns_some hsend
  unfold sizeofDnsName at htail'
  rw [hhead] at hhead'
  cases hhead'
  have hlocal : localIp.length = 4 := h.addrLen _ (List.mem_of_head? hhead)
  obtain ⟨-, -, htot, hid⟩ := @answerMem_ip o skb payload k localIp h
  have hipv4 : skb.mem.be16 (skb.mac + 12) = ethTypeIpv4.toNat := by
    rcases h.udp.family with ⟨h4, -⟩ | ⟨h6, -⟩
    · exact h4
    · -- the payload length was taken for the identification and cleared
      have hsays := hanswered.payloadLen h6
      have hlong := (h.payloadLen h6).1
      rw [hmem, hnet', hid] at hsays
      omega
  have hresponds := hanswered.responds
  unfold SkBuff.udpPayload at hresponds
  rw [hmem, htransport, htail',
    show skb.tail + 16 - (skb.transport + 8) = payload.length + 16 by omega,
    answerMem_payload h hlocal (by omega), answered_payload hlocal hq hone] at hresponds
  refine ⟨hipv4, fun hnil => ?_, hroom, ?_, hresponds.1, fun localIp' a hlocal' ha => ?_⟩
  · rw [hnil] at hhead
    cases hhead
  · have hsays := hanswered.totLen hipv4
    rw [hmem, hnet', htot, h.totLen hipv4] at hsays
    unfold sizeofDnsName
    omega
  · rw [hhead] at hlocal'
    cases hlocal'
    exact hresponds.2 a ha

theorem answers_of_answerable (h : HookDatagram skb payload) (hq : Dns.parse payload = some q)
    (hone : q.questions = [q0]) (hable : Answerable skb q) : PacketAnswers k o skb q := by
  obtain ⟨hmac, hnet, htail⟩ := h.layout
  have hlen := parse_length hq
  have htailLen := h.tail_eq
  have hudpLen : skb.mem.be16 (skb.transport + 4) = 8 + payload.length := h.udp.length
  have hne : ethTypeIpv4.toNat ≠ ethTypeIpv6.toNat := by decide
  obtain ⟨skb', hsend⟩ := skbRecvDns_of_room (o := o) k h.linear hable.addressed hable.room
  obtain ⟨localIp, hhead, -, hmem, hmac', hnet', htransport, htail'⟩ := skbRecvDns_some hsend
  unfold sizeofDnsName at htail'
  have hlocal : localIp.length = 4 := h.addrLen _ (List.mem_of_head? hhead)
  have hfits := hable.fits
  have hnot6 : ¬ skb.mem.be16 (skb.mac + 12) = ethTypeIpv6.toNat := by
    rw [hable.ipv4]
    exact hne
  obtain ⟨hsaddr, hdaddr, htot, -⟩ := @answerMem_ip o skb payload k localIp h
  obtain ⟨hsource, hdest, hudp⟩ := @answerMem_udp o skb payload k localIp h
  unfold sizeofDnsName at hfits
  refine ⟨localIp, skb', hhead, hsend, ?_, ?_, ?_, ?_, ?_, ?_, ?_⟩
  · unfold SkBuff.udpPayload
    rw [hmem, htransport, htail',
      show skb.tail + 16 - (skb.transport + 8) = payload.length + 16 by omega,
      answerMem_payload h hlocal (by omega), answered_payload hlocal hq hone]
    exact ⟨hable.answers, fun a ha => hable.records localIp a hhead ha⟩
  · rw [hmem, htransport]
    exact ⟨hsource, hdest⟩
  · intro _
    unfold SkBuff.ipSaddr SkBuff.ipDaddr
    rw [hmem, hnet']
    exact ⟨hsaddr, hdaddr⟩
  · exact fun h6 => absurd h6 hnot6
  · unfold SkBuff.udpLen
    rw [hmem, htransport, hudp, hudpLen]
    omega
  · intro h4
    rw [hmem, hnet', htot, h.totLen h4]
    omega
  · exact fun h6 => absurd h6 hnot6

end Answers

/-- In linear memory, a query with one question becomes its answer, behind the Ethernet header, if
and only if it came over IPv4, brings no record that would be taken for the answer, and there is
room for 16 bytes more. -/
theorem packet_answered_iff {k : Kernel} {o : ByteOrder} {skb : HookSkb} {payload : List Byte}
    {q : Dns.Message} {q0 : Dns.Question} (h : HookDatagram skb payload)
    (hq : Dns.parse payload = some q) (hone : q.questions = [q0]) :
    PacketAnswers k o skb q ↔ Answerable skb q :=
  ⟨answerable_of_answers h hq hone, answers_of_answerable h hq hone⟩

/-- `udpPacket` as it reaches the hook. -/
def hookPacket (payload : List Byte) : HookSkb where
  toSkBuff := udpPacket payload
  len := 28 + payload.length
  frags := []
  tailroom := 16
  devAddr := [2, 0, 0, 0, 0, 1]
  csum := 0

def zeroKernel : Kernel where
  skbChecksum := fun _ _ _ => 0
  csumTcpudpMagic := fun _ _ _ _ => 0
  ipFastCsum := fun _ _ => 0

theorem hookPacket_datagram {payload : List Byte} (h : payload.length < 228) :
    HookDatagram (hookPacket payload) payload := by
  have hne : ethTypeIpv4.toNat ≠ ethTypeIpv6.toNat := by decide
  refine ⟨rfl, udpPacket_datagram h, ?_, fun _ => ?_, fun h6 => absurd h6 hne, ?_⟩
  · change 14 + (28 + payload.length) = 34 + 8 + payload.length
    omega
  · change 2 ^ 8 * 0 + (BitVec.ofNat 8 (28 + payload.length)).toNat = 28 + payload.length
    rw [BitVec.toNat_ofNat]
    omega
  · intro a ha
    rw [List.mem_singleton.mp ha]
    rfl

/-- A query whose name is the text of the route in a single label. -/
def textQuery : List Byte := query [routeUrl]

/-- Behind the Ethernet header the answer to it is right. -/
example : PacketAnswers zeroKernel .big (hookPacket textQuery)
    ⟨7, 256, [⟨14 :: (routeUrl ++ [0]), 1, 1⟩], [], [], []⟩ := by
  have hlen : textQuery.length < 228 := by decide
  refine (packet_answered_iff (hookPacket_datagram hlen) (by decide) rfl).mpr
    ⟨rfl, List.cons_ne_nil _ _, Nat.le_refl _, by decide, rfl, ?_⟩
  intro localIp a _ ha
  cases ha

/-- The same query with the record of EDNS, and that record. -/
def ednsQuery : List Byte :=
  [0, 7, 1, 0, 0, 1, 0, 0, 0, 0, 0, 1] ++ Dns.nameBytes [routeUrl] ++ [0, 1, 0, 1] ++
    [0, 0, 41, 16, 0, 0, 0, 0, 0, 0, 0]

def ednsRecord : Dns.Record := ⟨[0], 41, 4096, [0, 0, 0, 0], []⟩

/-- In the answer to this one the record stands where the address should. -/
example : skbIsDns .big (hookPacket ednsQuery).toSkBuff = true ∧
    ¬ PacketAnswers zeroKernel .big (hookPacket ednsQuery)
      ⟨7, 256, [⟨14 :: (routeUrl ++ [0]), 1, 1⟩], [], [], [ednsRecord]⟩ := by
  refine ⟨by decide, fun h => ?_⟩
  have hlen : ednsQuery.length < 228 := by decide
  have hable := (packet_answered_iff (hookPacket_datagram hlen) (by decide) rfl).mp h
  have haddr := (hable.records [10, 0, 0, 1] ednsRecord rfl rfl).1
  exact absurd haddr (by decide)

end Server
end Xsky
