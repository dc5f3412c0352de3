import Xsky.Kit.Buf
import Xsky.Server.Answers

/-!
# Server.Forward

`skb_sendto_client` and `skb_sendto_server`: the copies of TCP packets with eight bytes put in
behind the header, which name the original destination, and with such bytes taken out again.

The new buffer comes from `alloc_skb` with whatever is in it. Its length is what its own `tot_len`
happens to be by then, and the payload is copied for as long as the host reads the `tot_len` of the
old packet, which is in network order. `none` is `skb_over_panic`, or a copy that leaves a buffer.

* `clientPacket`, `serverPacket` — what is to be sent, up to the checksums, of a TCP packet over IPv4
  without IP options and in linear memory.
* `client_intact_iff`    — when that is what is sent.
* `server_undoes_client` — when the second takes out what the first has put in.
-/

namespace Xsky
namespace Server

open Kit

/-- `_device.config.server`, as its bytes. -/
structure Endpoint where
  port : List Byte
  addr : List Byte

/-- `TCPOPT_LEN_V4` -/
def tcpoptLenV4 : Nat := 8

/-- `TCPOPT_OP_V4` -/
def tcpoptOpV4 : Byte := 253

/-- A buffer that is allocated: its bytes from the head on, `LL_RESERVED_SPACE`, and how much more
than was asked for there is. -/
structure NewSkb where
  stale : Mem
  reserve : Nat
  spare : Nat
  reserve_ge : 16 ≤ reserve
  reserve_lt : reserve < 2 ^ 18

namespace NewSkb

variable (o : ByteOrder) (b : NewSkb)

/-- `ip->tot_len` before anything is written. -/
def totLen : Nat := (o.load16 b.stale (b.reserve + 2)).toNat

/-- `ip->tot_len - sizeof( struct iphdr ) - sizeof( struct tcphdr )`, as the `unsigned int` that
`skb_put` takes. -/
def payloadLen : Nat := (b.totLen o + (2 ^ 32 - 40)) % 2 ^ 32

def len : Nat := (14 + 20 + 20 + b.payloadLen o) % 2 ^ 32

def tail : Nat := (b.reserve + 20 + 20 + b.payloadLen o) % 2 ^ 32

/-- The bytes from `data` on, once these are written there. -/
def content (written : Buf) : Mem := fun i =>
  if i < written.length then written.getD i 0 else b.stale (b.reserve - 14 + i)

end NewSkb

section Sendto

variable (o : ByteOrder) (server : Endpoint) (k : Kernel) (skb : HookSkb) (b : NewSkb)

/-- `ip_hdr( skb )->tot_len` less what is not copied, in `size_t`. -/
def copyLen (headers : Nat) : Nat :=
  ((o.load16 skb.mem (skb.network + 2)).toNat + (2 ^ 64 - headers)) % 2 ^ 64

/-- `memcpy` from the one buffer to the other. -/
def copyPayload (endOf dst src n : Nat) : Option Buf :=
  if src + n ≤ skb.tail + skb.tailroom ∧ dst + n ≤ endOf then some (skb.mem.bytes src n) else none

def ethPart : Buf := skb.mem.bytes skb.mac 14

/-- The header of IP with these fields changed. -/
def ipPart (totLen : BitVec 16) (check saddr daddr : Buf) : Buf :=
  skb.mem.bytes skb.network 2 ++ o.store16 (o.hton16 totLen) ++
    skb.mem.bytes (skb.network + 4) 6 ++ check ++ saddr ++ daddr

/-- The header of TCP with these fields changed. -/
def tcpPart (source dest check : Buf) : Buf :=
  source ++ dest ++ skb.mem.bytes (skb.transport + 4) 12 ++ check ++
    skb.mem.bytes (skb.transport + 18) 2

/-- `// tcp opt`; the second byte should be the length. -/
def optionPart : Buf :=
  [tcpoptOpV4, 2] ++ skb.mem.bytes (skb.transport + 2) 2 ++ skb.mem.bytes (skb.network + 16) 4

/-- The checksums, and `dev_queue_xmit`. The sum that `skb_checksum` makes is not in the frame: that
of the old packet is taken. -/
def transmit (front : Buf → Buf → Buf) (saddr daddr payload : Buf) : Buf :=
  let ihl := (skb.mem skb.network).toNat % 16
  let tcpCheck := o.store16
    (k.csumTcpudpMagic saddr daddr ((b.len o + (2 ^ 32 - ihl * 4)) % 2 ^ 32) skb.csum)
  let m := b.content (front (o.store16 0) tcpCheck ++ payload)
  let ipCheck := o.store16 (k.ipFastCsum (fun i => m (14 + i)) ihl)
  (b.content (front ipCheck tcpCheck ++ payload)).bytes 0 (b.len o)

/-- `ntohs( ip->tot_len )` -/
def wireTotLen : Nat := skb.mem.be16 (skb.network + 2)

/-- All in front of the payload, for the two checksums. -/
def clientFront (ipCheck tcpCheck : Buf) : Buf :=
  ethPart skb ++
    ipPart o skb (BitVec.ofNat 16 (wireTotLen skb + tcpoptLenV4)) ipCheck
      (skb.mem.bytes (skb.network + 12) 4) ((Buf.mem server.addr).bytes 0 4) ++
    tcpPart skb (skb.mem.bytes skb.transport 2) ((Buf.mem server.port).bytes 0 2) tcpCheck ++
    optionPart skb

def skbSendtoClient : Option Buf :=
  let endOf := skb.len + tcpoptLenV4 + b.reserve + b.spare
  if endOf < b.tail o then none
  else
    (copyPayload skb endOf (b.reserve + 20 + 20 + tcpoptLenV4) (skb.transport + 20)
      (copyLen o skb 40)).map fun payload =>
        transmit o k skb b (clientFront o server skb) (skb.mem.bytes (skb.network + 12) 4)
          ((Buf.mem server.addr).bytes 0 4) payload

/-- The port and the address come from behind the header of TCP. -/
def serverFront (ipCheck tcpCheck : Buf) : Buf :=
  ethPart skb ++
    ipPart o skb (BitVec.ofNat 16 (wireTotLen skb + (2 ^ 16 - tcpoptLenV4))) ipCheck
      (skb.mem.bytes (skb.transport + 20 + 4) 4) (skb.mem.bytes (skb.network + 16) 4) ++
    tcpPart skb (skb.mem.bytes (skb.transport + 20 + 2) 2) (skb.mem.bytes (skb.transport + 2) 2)
      tcpCheck

def skbSendtoServer : Option Buf :=
  let endOf := skb.len + b.reserve - tcpoptLenV4 + b.spare
  if endOf < b.tail o then none
  else
    (copyPayload skb endOf (b.reserve + 20 + 20) (skb.transport + 20 + tcpoptLenV4)
      (copyLen o skb 48)).map fun payload =>
        transmit o k skb b (serverFront o skb) (skb.mem.bytes (skb.transport + 20 + 4) 4)
          (skb.mem.bytes (skb.network + 16) 4) payload

/-! ## What is to be sent -/

/-- TCP over IPv4, with 20 bytes of header each in front of options and payload of TCP, and nothing in
page fragments. -/
structure HookSkb.PlainTcp (skb : HookSkb) : Prop where
  linear : skb.frags = []
  version : skb.mem skb.network = 0x45
  protocol : skb.ipProtocol = 6
  network : skb.mac + 14 ≤ skb.network
  transport : skb.transport = skb.network + 20
  headers : 40 ≤ skb.len

instance (skb : HookSkb) : Decidable skb.PlainTcp :=
  decidable_of_iff (skb.frags = [] ∧ skb.mem skb.network = 0x45 ∧ skb.ipProtocol = 6 ∧
      skb.mac + 14 ≤ skb.network ∧ skb.transport = skb.network + 20 ∧ 40 ≤ skb.len)
    ⟨fun h => ⟨h.1, h.2.1, h.2.2.1, h.2.2.2.1, h.2.2.2.2.1, h.2.2.2.2.2⟩,
      fun h => ⟨h.linear, h.version, h.protocol, h.network, h.transport, h.headers⟩⟩

def clientPacket (ipCheck tcpCheck : Buf) : Buf :=
  clientFront o server skb ipCheck tcpCheck ++ skb.mem.bytes (skb.transport + 20) (skb.len - 40)

def serverPacket (ipCheck tcpCheck : Buf) : Buf :=
  serverFront o skb ipCheck tcpCheck ++
    skb.mem.bytes (skb.transport + 20 + tcpoptLenV4) (skb.len - 48)

/-- Sent is the packet, with some checksums. -/
def SendsPacket (packet : Buf → Buf → Buf) (sent : Option Buf) : Prop :=
  ∃ ipCheck tcpCheck, ipCheck.length = 2 ∧ tcpCheck.length = 2 ∧
    sent = some (packet ipCheck tcpCheck)

end Sendto

/-! ## The new buffer -/

variable {o : ByteOrder} {server : Endpoint} {k : Kernel} {skb : HookSkb} {b : NewSkb}

theorem totLen_lt : b.totLen o < 2 ^ 16 := (o.load16 b.stale (b.reserve + 2)).isLt

/-- A length short of the headers is made up for by the wrap. -/
theorem len_eq : b.len o = 14 + b.totLen o := by
  have ht := totLen_lt (o := o) (b := b)
  unfold NewSkb.len NewSkb.payloadLen
  omega

theorem tail_eq : b.tail o = b.reserve + b.totLen o := by
  have ht := totLen_lt (o := o) (b := b)
  have hr := b.reserve_lt
  unfold NewSkb.tail NewSkb.payloadLen
  omega

section Front

variable {front : Buf → Buf → Buf} {size : Nat} {src : Mem} {from_ count : Nat}

/-- In front of the payload. -/
theorem content_front {f : Buf} (hf : f.length = size) {i : Nat} (hi : i < size) :
    b.content (f ++ src.bytes from_ count) i = f.getD i 0 := by
  unfold NewSkb.content
  rw [if_pos (by rw [List.length_append]; omega)]
  simp [List.getD_eq_getElem?_getD, List.getElem?_append_left (show i < f.length by omega)]

/-- In the payload, and behind the part of it that is copied. -/
theorem content_payload {f : Buf} (hf : f.length = size) (j : Nat) :
    b.content (f ++ src.bytes from_ count) (size + j) =
      if j < count then src (from_ + j) else b.stale (b.reserve - 14 + (size + j)) := by
  unfold NewSkb.content
  rw [List.length_append, Mem.bytes_length, hf]
  by_cases hj : j < count
  · rw [if_pos (by omega), if_pos hj, List.getD_eq_getElem?_getD,
      List.getElem?_append_right (by omega), hf, Nat.add_sub_cancel_left,
      List.getElem?_eq_getElem (by rw [Mem.bytes_length]; exact hj), Option.getD_some,
      Mem.bytes_getElem]
  · rw [if_neg (by omega), if_neg hj]

theorem transmit_content (hfront : ∀ c1 c2, c1.length = 2 → c2.length = 2 →
    (front c1 c2).length = size) (saddr daddr payload : Buf) :
    ∃ c1 c2, c1.length = 2 ∧ c2.length = 2 ∧ (front c1 c2).length = size ∧
      transmit o k skb b front saddr daddr payload =
        (b.content (front c1 c2 ++ payload)).bytes 0 (14 + b.totLen o) := by
  unfold transmit
  dsimp only
  generalize k.csumTcpudpMagic _ _ _ _ = tcpSum
  generalize k.ipFastCsum _ _ = ipSum
  rw [len_eq]
  exact ⟨o.store16 ipSum, o.store16 tcpSum, o.store16_length _, o.store16_length _,
    hfront _ _ (o.store16_length _) (o.store16_length _), rfl⟩

/-- The packet is sent if the length that was found is its own, and what is not copied of the
payload was there already. -/
theorem transmit_packet_iff (o : ByteOrder) (k : Kernel) (skb : HookSkb) (b : NewSkb) (src : Mem)
    (from_ count rest : Nat) (saddr daddr : Buf) (hfront : ∀ c1 c2, c1.length = 2 → c2.length = 2 →
    (front c1 c2).length = size) :
    SendsPacket (fun c1 c2 => front c1 c2 ++ src.bytes from_ rest)
        (some (transmit o k skb b front saddr daddr (src.bytes from_ count))) ↔
      14 + b.totLen o = size + rest ∧
        ∀ j, count ≤ j → j < rest → b.stale (b.reserve - 14 + (size + j)) = src (from_ + j) := by
  obtain ⟨x, y, hx, hy, hxy, htransmit⟩ :=
    @transmit_content o k skb b front size hfront saddr daddr (src.bytes from_ count)
  unfold SendsPacket
  rw [htransmit]
  constructor
  · rintro ⟨c1, c2, h1, h2, hsent⟩
    rw [Option.some.injEq] at hsent
    have hlen := congrArg List.length hsent
    rw [Mem.bytes_length, List.length_append, hfront c1 c2 h1 h2, Mem.bytes_length] at hlen
    refine ⟨hlen, fun j hj hrest => ?_⟩
    have hat := congrArg (·[size + j]?) hsent
    simp only at hat
    rw [List.getElem?_eq_getElem (by rw [Mem.bytes_length]; omega), Mem.bytes_getElem,
      Nat.zero_add, content_payload hxy, if_neg (by omega),
      List.getElem?_append_right (by rw [hfront c1 c2 h1 h2]; omega), hfront c1 c2 h1 h2,
      Nat.add_sub_cancel_left, List.getElem?_eq_getElem (by rw [Mem.bytes_length]; exact hrest),
      Mem.bytes_getElem, Option.some.injEq] at hat
    exact hat
  · rintro ⟨hlen, hstale⟩
    refine ⟨x, y, hx, hy, ?_⟩
    rw [Option.some.injEq, hlen]
    apply List.ext_getElem
    · rw [Mem.bytes_length, List.length_append, hxy, Mem.bytes_length]
    · intro i h1 h2
      rw [Mem.bytes_length] at h1
      rw [Mem.bytes_getElem, Nat.zero_add, List.getElem_append]
      by_cases hi : i < size
      · rw [content_front hxy hi, dif_pos (by omega)]
        simp [show i < (front x y).length by omega]
      · obtain ⟨j, rfl⟩ : ∃ j, i = size + j := ⟨i - size, by omega⟩
        rw [content_payload hxy, dif_neg (by omega), Mem.bytes_getElem, hxy,
          Nat.add_sub_cancel_left]
        split
        · rfl
        · exact hstale j (by omega) (by omega)

end Front

/-! ## When the packet is sent -/

theorem clientFront_length {c1 c2 : Buf} (h1 : c1.length = 2) (h2 : c2.length = 2) :
    (clientFront o server skb c1 c2).length = 62 := by
  simp [clientFront, ethPart, ipPart, tcpPart, optionPart, o.store16_length, h1, h2]

theorem serverFront_length {c1 c2 : Buf} (h1 : c1.length = 2) (h2 : c2.length = 2) :
    (serverFront o skb c1 c2).length = 54 := by
  simp [serverFront, ethPart, ipPart, tcpPart, o.store16_length, h1, h2]

/-- The copy stays inside both buffers. -/
def CopyFits (skb : HookSkb) (endOf dst src n : Nat) : Prop :=
  src + n ≤ skb.tail + skb.tailroom ∧ dst + n ≤ endOf

theorem not_sends_none (packet : Buf → Buf → Buf) : ¬ SendsPacket packet none := by
  rintro ⟨c1, c2, -, -, h⟩
  cases h

/-- Both functions, up to what is in front of the payload. -/
theorem sendto_intact_iff (o : ByteOrder) (k : Kernel) (skb : HookSkb) (b : NewSkb)
    (front : Buf → Buf → Buf) (size endOf dst src count rest : Nat) (saddr daddr : Buf)
    (hfront : ∀ c1 c2, c1.length = 2 → c2.length = 2 → (front c1 c2).length = size)
    (hroom : 14 + b.totLen o = size + rest → CopyFits skb endOf dst src count →
      b.tail o ≤ endOf) :
    SendsPacket (fun c1 c2 => front c1 c2 ++ skb.mem.bytes src rest)
        (if endOf < b.tail o then none
        else (copyPayload skb endOf dst src count).map fun payload =>
          transmit o k skb b front saddr daddr payload) ↔
      14 + b.totLen o = size + rest ∧ CopyFits skb endOf dst src count ∧
        ∀ j, count ≤ j → j < rest →
          b.stale (b.reserve - 14 + (size + j)) = skb.mem (src + j) := by
  have hpacket :=
    transmit_packet_iff o k skb b skb.mem src count rest saddr daddr hfront
  by_cases hfits : CopyFits skb endOf dst src count
  · have hcopy : copyPayload skb endOf dst src count = some (skb.mem.bytes src count) :=
      if_pos hfits
    rw [hcopy, Option.map_some]
    by_cases htail : endOf < b.tail o
    · rw [if_pos htail]
      refine ⟨fun h => absurd h (not_sends_none _), ?_⟩
      rintro ⟨hlen, -, -⟩
      exact absurd (hroom hlen hfits) (Nat.not_le.mpr htail)
    · rw [if_neg htail, hpacket]
      exact ⟨fun h => ⟨h.1, hfits, h.2⟩, fun h => ⟨h.1, h.2.2⟩⟩
  · have hcopy : copyPayload skb endOf dst src count = none := if_neg hfits
    rw [hcopy, Option.map_none, ite_self]
    exact ⟨fun h => absurd h (not_sends_none _), fun h => absurd h.2.1 hfits⟩

/-- The packet goes out whole if and only if the fresh memory already says its length, the host's
reading of `tot_len` keeps the copy inside the buffers, and what that leaves out of the payload is
in the fresh memory too. -/
theorem client_intact_iff (o : ByteOrder) (server : Endpoint) (k : Kernel) (skb : HookSkb)
    (b : NewSkb) (h : skb.PlainTcp) :
    SendsPacket (clientPacket o server skb) (skbSendtoClient o server k skb b) ↔
      b.totLen o = skb.len + 8 ∧
      CopyFits skb (skb.len + 8 + b.reserve + b.spare) (b.reserve + 48) (skb.network + 40)
        (copyLen o skb 40) ∧
      ∀ j, copyLen o skb 40 ≤ j → j < skb.len - 40 →
        b.stale (b.reserve + 48 + j) = skb.mem (skb.network + 40 + j) := by
  have hlen := h.headers
  have hreserve := b.reserve_ge
  have htotal : 14 + b.totLen o = 62 + (skb.len - 40) ↔ b.totLen o = skb.len + 8 := by omega
  have hsrc : skb.transport + 20 = skb.network + 40 := by rw [h.transport]
  have hplace : ∀ j, b.reserve - 14 + (62 + j) = b.reserve + 48 + j := fun j => by omega
  have hroom : 14 + b.totLen o = 62 + (skb.len - 40) → CopyFits skb
      (skb.len + 8 + b.reserve + b.spare) (b.reserve + 48) (skb.transport + 20) (copyLen o skb 40) →
        b.tail o ≤ skb.len + 8 + b.reserve + b.spare := by
    rintro hlen ⟨-, hfits⟩
    rw [tail_eq]
    omega
  have hiff := sendto_intact_iff o k skb b (clientFront o server skb) 62
    (skb.len + 8 + b.reserve + b.spare) (b.reserve + 48) (skb.transport + 20) (copyLen o skb 40)
    (skb.len - 40) (skb.mem.bytes (skb.network + 12) 4) ((Buf.mem server.addr).bytes 0 4)
    (fun _ _ => clientFront_length) hroom
  simp only [htotal, hsrc, hplace] at hiff
  unfold skbSendtoClient clientPacket tcpoptLenV4
  rw [hsrc]
  exact hiff

theorem server_intact_iff (o : ByteOrder) (k : Kernel) (skb : HookSkb) (b : NewSkb) :
    SendsPacket (serverPacket o skb) (skbSendtoServer o k skb b) ↔
      14 + b.totLen o = 54 + (skb.len - 48) ∧
      CopyFits skb (skb.len + b.reserve - 8 + b.spare) (b.reserve + 40) (skb.transport + 28)
        (copyLen o skb 48) ∧
      ∀ j, copyLen o skb 48 ≤ j → j < skb.len - 48 →
        b.stale (b.reserve - 14 + (54 + j)) = skb.mem (skb.transport + 28 + j) := by
  unfold skbSendtoServer serverPacket tcpoptLenV4
  refine sendto_intact_iff o k skb b (serverFront o skb) 54
    (skb.len + b.reserve - 8 + b.spare) (b.reserve + 40) (skb.transport + 28) (copyLen o skb 48)
    (skb.len - 48) (skb.mem.bytes (skb.transport + 20 + 4) 4) (skb.mem.bytes (skb.network + 16) 4)
    (fun _ _ => serverFront_length) ?_
  rintro hlen ⟨-, hfits⟩
  rw [tail_eq]
  omega

/-! ## There and back -/

/-- The packet as the next host has it, in linear memory. -/
def HookSkb.arriving (skb : HookSkb) (sent : Buf) : HookSkb :=
  { skb with
    mem := Buf.mem sent, mac := 0, network := 14, transport := 34, len := sent.length - 14
    frags := [] }

/-- The packet that `skb` was, from its destination to the server. -/
def restoredPacket (o : ByteOrder) (server : Endpoint) (skb : HookSkb) (ipCheck tcpCheck : Buf) :
    Buf :=
  ethPart skb ++
    ipPart o skb (BitVec.ofNat 16 skb.len) ipCheck (skb.mem.bytes (skb.network + 16) 4)
      ((Buf.mem server.addr).bytes 0 4) ++
    tcpPart skb (skb.mem.bytes (skb.transport + 2) 2) ((Buf.mem server.port).bytes 0 2) tcpCheck ++
    skb.mem.bytes (skb.transport + 20) (skb.len - 40)

section Parts

variable {part rest : Buf} {i n : Nat}

theorem bytes_skip (h : part.length ≤ i) :
    (Buf.mem (part ++ rest)).bytes i n = (Buf.mem rest).bytes (i - part.length) n := by
  refine Mem.bytes_congr fun j hj => ?_
  rw [show i + j = part.length + (i - part.length + j) by omega, Buf.mem_append_right rfl]

theorem be16_skip (h : part.length ≤ i) :
    (Buf.mem (part ++ rest)).be16 i = (Buf.mem rest).be16 (i - part.length) := by
  have hat : ∀ j, (Buf.mem (part ++ rest)) (i + j) = (Buf.mem rest) (i - part.length + j) := by
    intro j
    rw [show i + j = part.length + (i - part.length + j) by omega, Buf.mem_append_right rfl]
  have hfirst := hat 0
  rw [Nat.add_zero, Nat.add_zero] at hfirst
  unfold Mem.be16
  rw [hfirst, hat 1]

theorem bytes_part (h : part.length = n) : (Buf.mem (part ++ rest)).bytes 0 n = part := by
  apply List.ext_getElem
  · rw [Mem.bytes_length, h]
  · intro i h1 h2
    rw [Mem.bytes_getElem, Nat.zero_add]
    simp [Buf.mem, List.getElem?_append_left h2, h2]

theorem bytes_all (h : part.length = n) : (Buf.mem part).bytes 0 n = part := by
  have hpart := @bytes_part part [] n h
  rwa [List.append_nil] at hpart

theorem be16_stored (o : ByteOrder) (v : BitVec 16) :
    (Buf.mem (o.store16 (o.hton16 v) ++ rest)).be16 0 = v.toNat := by
  have hv := v.isLt
  have hhigh : (Buf.mem ([Mem.byteOf v 1, Mem.byteOf v 0] ++ rest)) 0 = Mem.byteOf v 1 := rfl
  have hlow : (Buf.mem ([Mem.byteOf v 1, Mem.byteOf v 0] ++ rest)) (0 + 1) = Mem.byteOf v 0 := rfl
  unfold Mem.be16
  rw [o.store16_hton16, hhigh, hlow, Mem.byteOf_toNat, Mem.byteOf_toNat]
  omega

end Parts

section Arriving

variable {c1 c2 : Buf}

theorem clientPacket_length (h1 : c1.length = 2) (h2 : c2.length = 2) :
    (clientPacket o server skb c1 c2).length = 62 + (skb.len - 40) := by
  unfold clientPacket
  rw [List.length_append, clientFront_length h1 h2, Mem.bytes_length]

theorem wireTotLen_arriving (skb' : HookSkb) (hmax : wireTotLen skb + 8 < 2 ^ 16) :
    wireTotLen (skb'.arriving (clientPacket o server skb c1 c2)) = wireTotLen skb + 8 := by
  unfold clientPacket clientFront ipPart
  simp only [List.append_assoc]
  unfold wireTotLen HookSkb.arriving
  dsimp only
  rw [be16_skip (by simp [ethPart]), be16_skip (by simp [ethPart])]
  simp only [ethPart, Mem.bytes_length, Nat.reduceAdd, Nat.reduceSub]
  rw [be16_stored, BitVec.toNat_ofNat]
  exact Nat.mod_eq_of_lt hmax

theorem serverPacket_arriving (skb' : HookSkb) (h1 : c1.length = 2) (h2 : c2.length = 2)
    (hwire : wireTotLen skb = skb.len) (hlen : 40 ≤ skb.len) (hmax : skb.len + 8 < 2 ^ 16) :
    serverPacket o (skb'.arriving (clientPacket o server skb c1 c2)) =
      restoredPacket o server skb := by
  funext d1 d2
  have hmarker : ([tcpoptOpV4, 2] : Buf).length = 2 := rfl
  have hless :
      BitVec.ofNat 16 (skb.len + 8 + (2 ^ 16 - tcpoptLenV4)) = BitVec.ofNat 16 skb.len := by
    rw [← BitVec.toNat_inj, BitVec.toNat_ofNat, BitVec.toNat_ofNat]
    unfold tcpoptLenV4
    omega
  have hrest : 62 + (skb.len - 40) - 14 - 48 = skb.len - 40 := by omega
  unfold serverPacket serverFront ipPart
  rw [wireTotLen_arriving skb' (by rw [hwire]; exact hmax), hwire, hless]
  unfold restoredPacket HookSkb.arriving
  dsimp only
  rw [clientPacket_length h1 h2, hrest]
  unfold clientPacket clientFront ipPart tcpPart ethPart optionPart tcpoptLenV4
  generalize ([tcpoptOpV4, 2] : Buf) = marker at hmarker
  -- each part is behind the ones before it
  simp [bytes_skip, bytes_part, bytes_all, h1, h2, o.store16_length, hmarker]

/-- Where the payload is at the next host. -/
theorem arriving_payload (skb' : HookSkb) (h1 : c1.length = 2) (h2 : c2.length = 2) {j : Nat}
    (hj : j < skb.len - 40) :
    (skb'.arriving (clientPacket o server skb c1 c2)).mem (62 + j) =
      skb.mem (skb.transport + 20 + j) := by
  unfold HookSkb.arriving clientPacket
  dsimp only
  rw [Buf.mem_append_right (clientFront_length h1 h2)]
  unfold Buf.mem
  rw [List.getD_eq_getElem?_getD, List.getElem?_eq_getElem (by rw [Mem.bytes_length]; exact hj),
    Option.getD_some, Mem.bytes_getElem]

end Arriving

/-- What `skb_sendto_client` has put in, `skb_sendto_server` takes out, so the packet comes back as
it was but for its addresses: if and only if, on the way back too, the fresh memory and the host's
reading of `tot_len` allow it. -/
theorem server_undoes_client (o : ByteOrder) (server : Endpoint) (k : Kernel) (skb skb' : HookSkb)
    (b : NewSkb) (sent : Buf) (hsent : SendsPacket (clientPacket o server skb) (some sent))
    (h : skb.PlainTcp) (hwire : wireTotLen skb = skb.len) (hmax : skb.len + 8 < 2 ^ 16) :
    SendsPacket (restoredPacket o server skb) (skbSendtoServer o k (skb'.arriving sent) b) ↔
      b.totLen o = skb.len ∧
      CopyFits (skb'.arriving sent) (skb.len + b.reserve + b.spare) (b.reserve + 40) 62
        (copyLen o (skb'.arriving sent) 48) ∧
      ∀ j, copyLen o (skb'.arriving sent) 48 ≤ j → j < skb.len - 40 →
        b.stale (b.reserve + 40 + j) = skb.mem (skb.network + 40 + j) := by
  obtain ⟨c1, c2, h1, h2, hpacket⟩ := hsent
  have hlen := h.headers
  have hreserve := b.reserve_ge
  rw [Option.some.injEq] at hpacket
  subst hpacket
  have hback : (skb'.arriving (clientPacket o server skb c1 c2)).len = skb.len + 8 := by
    unfold HookSkb.arriving
    dsimp only
    rw [clientPacket_length h1 h2]
    omega
  have hspare : skb.len + 8 + b.reserve - 8 + b.spare = skb.len + b.reserve + b.spare := by omega
  have htotal : 14 + b.totLen o = 54 + (skb.len + 8 - 48) ↔ b.totLen o = skb.len := by omega
  have hrest : skb.len + 8 - 48 = skb.len - 40 := by omega
  rw [← serverPacket_arriving skb' h1 h2 hwire hlen hmax, server_intact_iff, hback, hspare, htotal,
    hrest]
  refine and_congr_right fun _ => and_congr_right fun _ => ?_
  refine forall_congr' fun j => forall_congr' fun _ => forall_congr' fun hj => ?_
  have hsrc : (skb'.arriving (clientPacket o server skb c1 c2)).transport + 28 = 62 := rfl
  have hat := @arriving_payload o server skb c1 c2 skb' h1 h2 j hj
  have hplace : b.reserve - 14 + (54 + j) = b.reserve + 40 + j := by omega
  rw [hsrc, hat, hplace, h.transport]

/-- A TCP segment with three bytes in it, from 10.0.0.2 to 93.184.216.34. -/
def segment : HookSkb where
  mem := Buf.mem ([2, 0, 0, 0, 0, 1, 2, 0, 0, 0, 0, 2, 8, 0,
    0x45, 0, 0, 43, 0, 7, 0x40, 0, 64, 6, 0, 0, 10, 0, 0, 2, 93, 184, 216, 34,
    0x8c, 0xa0, 0, 80, 0, 0, 0, 1, 0, 0, 0, 1, 0x50, 0x18, 0, 200, 0, 0, 0, 0, 0x61, 0x62, 0x63])
  mac := 0
  network := 14
  transport := 34
  ifaList := [[10, 0, 0, 1]]
  acList := []
  len := 43
  frags := []
  tailroom := 0
  devAddr := [2, 0, 0, 0, 0, 1]
  csum := 0

def tunnelEnd : Endpoint := ⟨[0x1f, 0x90], [198, 51, 100, 7]⟩

/-- Fresh memory that says the length already. -/
def luckySkb (length : Byte) : NewSkb where
  stale := fun i => if i = 19 then length else 0
  reserve := 16
  spare := 0
  reserve_ge := Nat.le_refl _
  reserve_lt := by decide

theorem client_intact_segment :
    SendsPacket (clientPacket .big tunnelEnd segment)
      (skbSendtoClient .big tunnelEnd zeroKernel segment (luckySkb 51)) :=
  (client_intact_iff .big tunnelEnd zeroKernel segment (luckySkb 51) (by decide)).mpr
    ⟨by decide, ⟨by decide, by decide⟩, fun j hj hlt =>
      absurd hj (Nat.not_le.mpr (Nat.lt_of_lt_of_eq hlt (by decide)))⟩

theorem server_undoes_client_segment :
    SendsPacket (restoredPacket .big tunnelEnd segment)
      (skbSendtoServer .big zeroKernel
        (segment.arriving (clientPacket .big tunnelEnd segment [0, 0] [0, 0])) (luckySkb 43)) :=
  (server_undoes_client .big tunnelEnd zeroKernel segment segment (luckySkb 43) _
    ⟨[0, 0], [0, 0], rfl, rfl, rfl⟩ (by decide) (by decide) (by decide)).mpr
    ⟨by decide, ⟨by decide, by decide⟩, fun j hj hlt =>
      absurd hj (Nat.not_le.mpr (Nat.lt_of_lt_of_eq hlt (by decide)))⟩

end Server
end Xsky
