import Xsky.Headers

/-!
# Sky.Skb

Socket buffers, as the hooks of `server/server.c` use them. Memory is addressed from `skb->head`, so
`data` is also the headroom. A packet has `headlen` bytes from `data` on, and the rest of its `len`
bytes in pages.

`Located` says that the header offsets stored in the buffer point at the headers the packet starts
with, as they do when a hook is called; `receive` is the buffer in which another host sees the bytes
of a packet.
-/

namespace Xsky
namespace Sky

open Kit

/-- An address and a port, in network order. -/
structure Endpoint where
  addr : BitVec 32
  port : BitVec 16
deriving DecidableEq

structure SkBuff where
  mem : Mem
  data : Nat
  len : Nat
  frags : List Byte
  networkHeader : Nat
  transportHeader : Nat
  ipSummed : Nat
  csum : Nat

namespace SkBuff

def headlen (skb : SkBuff) : Nat := skb.len - skb.frags.length

/-- `skb_linearize`, when it succeeds -/
def linear (skb : SkBuff) : SkBuff :=
  { skb with
    mem := skb.mem.fill (skb.data + skb.headlen) skb.frags.length fun i => skb.frags.getD i 0
    frags := [] }

/-- The packet with all of its bytes in linear memory. -/
def flat (skb : SkBuff) : SkBuff := if skb.frags = [] then skb else skb.linear

/-- `skb_push`: `none` when the headroom is too small. -/
def push (skb : SkBuff) (n : Nat) : Option SkBuff :=
  if n ≤ skb.data then some { skb with data := skb.data - n, len := skb.len + n } else none

/-- `skb_header_pointer`: the bytes at the pointer returned, those after `n` being whatever follows
the packet or, in the buffer of the caller, whatever is there. -/
def headerPointer (skb : SkBuff) (offset n : Nat) (buffer : Mem) : Option Mem :=
  if offset + n ≤ skb.headlen then some fun i => skb.mem (skb.data + offset + i)
  else if offset + n ≤ skb.len then
    some (buffer.fill 0 n fun i =>
      if offset + i < skb.headlen then skb.mem (skb.data + offset + i)
      else skb.frags.getD (offset + i - skb.headlen) 0)
  else none

/-- The bytes of the packet. -/
def packet (skb : SkBuff) : List Byte := skb.mem.bytes skb.data skb.headlen ++ skb.frags

/-! ## The headers a packet starts with -/

def ihl (skb : SkBuff) : Nat := ipIhl skb.mem skb.data

def tcp (skb : SkBuff) : Nat := skb.data + skb.ihl * 4

def doff (skb : SkBuff) : Nat := tcpDoff skb.mem skb.tcp

def protocol (skb : SkBuff) : Byte := ipProtocol skb.mem skb.data

def saddr (skb : SkBuff) : BitVec 32 := ipSaddr skb.mem skb.data

def daddr (skb : SkBuff) : BitVec 32 := ipDaddr skb.mem skb.data

def source (skb : SkBuff) : BitVec 16 := tcpSource skb.mem skb.tcp

def dest (skb : SkBuff) : BitVec 16 := tcpDest skb.mem skb.tcp

/-- Where the packet comes from. -/
def origin (skb : SkBuff) : Endpoint := ⟨skb.saddr, skb.source⟩

/-- Where it goes. -/
def target (skb : SkBuff) : Endpoint := ⟨skb.daddr, skb.dest⟩

/-- `syn == 1 && ack == 0` -/
def opens (skb : SkBuff) : Bool := tcpSyn skb.mem skb.tcp && !tcpAck skb.mem skb.tcp

/-- `rst == 1 || fin == 1` -/
def closes (skb : SkBuff) : Bool := tcpRst skb.mem skb.tcp || tcpFin skb.mem skb.tcp

/-- The length of the payload, the headers taken off `skb->len`. -/
def payloadLen (skb : SkBuff) : Nat := skb.len - skb.ihl * 4 - skb.doff * 4

def payload (skb : SkBuff) : List Byte := skb.mem.bytes (skb.tcp + skb.doff * 4) skb.payloadLen

/-- The stored offsets point at these headers. -/
structure Located (skb : SkBuff) : Prop where
  network : skb.networkHeader = skb.data
  transport : skb.transportHeader = skb.tcp

/-- The headers are of full length, whether or not the packet is long enough for them. -/
structure Headed (skb : SkBuff) : Prop extends Located skb where
  ihl_ge : 5 ≤ skb.ihl
  doff_ge : 5 ≤ skb.doff
  len_lt : skb.len < 2 ^ 16

/-- A TCP packet in linear memory, headers within the packet. -/
structure Tcp (skb : SkBuff) : Prop extends Located skb where
  linear : skb.frags = []
  protocol_eq : skb.protocol = 6
  ihl_ge : 5 ≤ skb.ihl
  doff_ge : 5 ≤ skb.doff
  headers_le : skb.ihl * 4 + skb.doff * 4 ≤ skb.len
  len_lt : skb.len < 2 ^ 16

/-- A TCP packet, with the IP header in linear memory. -/
structure TcpPacket (skb : SkBuff) : Prop where
  header : 20 ≤ skb.headlen
  flat : skb.flat.Tcp

theorem tcp_eq (skb : SkBuff) : skb.tcp = skb.data + skb.ihl * 4 := rfl

theorem Tcp.headed {skb : SkBuff} (h : skb.Tcp) : skb.Headed :=
  ⟨h.toLocated, h.ihl_ge, h.doff_ge, h.len_lt⟩

theorem headlen_of_linear {skb : SkBuff} (h : skb.frags = []) : skb.headlen = skb.len := by
  simp [headlen, h]

theorem packet_of_linear {skb : SkBuff} (h : skb.frags = []) :
    skb.packet = skb.mem.bytes skb.data skb.len := by
  rw [packet, headlen_of_linear h, h, List.append_nil]

theorem flat_linear (skb : SkBuff) : skb.flat.frags = [] := by
  rw [flat]
  split
  · assumption
  · rfl

theorem flat_of_linear {skb : SkBuff} (h : skb.frags = []) : skb.flat = skb := by
  rw [flat, if_pos h]

theorem flat_flat (skb : SkBuff) : skb.flat.flat = skb.flat := flat_of_linear skb.flat_linear

@[simp] theorem flat_data (skb : SkBuff) : skb.flat.data = skb.data := by
  rw [flat]
  split <;> rfl

@[simp] theorem flat_len (skb : SkBuff) : skb.flat.len = skb.len := by
  rw [flat]
  split <;> rfl

@[simp] theorem flat_networkHeader (skb : SkBuff) :
    skb.flat.networkHeader = skb.networkHeader := by
  rw [flat]
  split <;> rfl

theorem flat_mem (skb : SkBuff) {i : Nat} (h : i < skb.headlen) :
    skb.flat.mem (skb.data + i) = skb.mem (skb.data + i) := by
  rw [flat]
  split
  · rfl
  · simp only [linear, Mem.fill_at]
    rw [if_neg (by omega)]

theorem TcpPacket.flat_packet {skb : SkBuff} (h : skb.TcpPacket) :
    skb.flat.packet = skb.packet := by
  by_cases hlin : skb.frags = []
  · rw [SkBuff.flat, if_pos hlin]
  · have hheader := h.header
    have hflat : skb.flat = skb.linear := by rw [SkBuff.flat, if_neg hlin]
    have hlen : skb.len = skb.headlen + skb.frags.length := by
      simp only [headlen] at hheader ⊢
      omega
    rw [packet_of_linear skb.flat_linear, hflat]
    change (skb.linear.mem).bytes skb.data skb.len = _
    rw [hlen, ← Mem.bytes_append, packet]
    congr 1
    · refine Mem.bytes_congr fun i hi => ?_
      rw [← flat_mem skb hi, hflat]
    · apply List.ext_getElem
      · simp
      · intro i h1 h2
        rw [Mem.bytes_getElem]
        simp only [linear, Mem.fill_at]
        rw [if_pos (by omega), Nat.add_sub_cancel_left, List.getD_eq_getElem?_getD,
          List.getElem?_eq_getElem h2]
        rfl

/-- The protocol is in the linear part of the packet. -/
theorem protocol_flat {skb : SkBuff} (header : 20 ≤ skb.headlen) (h : skb.flat.Located) :
    ipProtocol skb.mem skb.networkHeader = skb.flat.protocol := by
  have hnet : skb.networkHeader = skb.data := by
    rw [← flat_networkHeader, h.network, flat_data]
  rw [hnet, SkBuff.protocol, ipProtocol, ipProtocol, flat_data, flat_mem skb (by omega)]

theorem TcpPacket.protocol {skb : SkBuff} (h : skb.TcpPacket) :
    ipProtocol skb.mem skb.networkHeader = 6 := by
  rw [protocol_flat h.header h.flat.toLocated]
  exact h.flat.protocol_eq

/-! ## The headers at the stored offsets -/

section Located

variable {skb : SkBuff}

theorem Located.saddr_eq (h : skb.Located) : ipSaddr skb.mem skb.networkHeader = skb.saddr := by
  rw [h.network]
  rfl

theorem Located.source_eq (h : skb.Located) :
    tcpSource skb.mem skb.transportHeader = skb.source := by
  rw [h.transport]
  rfl

theorem Located.dest_eq (h : skb.Located) : tcpDest skb.mem skb.transportHeader = skb.dest := by
  rw [h.transport]
  rfl

theorem Located.opens_eq (h : skb.Located) :
    (tcpSyn skb.mem skb.transportHeader && !tcpAck skb.mem skb.transportHeader) = skb.opens := by
  rw [h.transport]
  rfl

theorem Located.closes_eq (h : skb.Located) :
    (tcpRst skb.mem skb.transportHeader || tcpFin skb.mem skb.transportHeader) = skb.closes := by
  rw [h.transport]
  rfl

end Located

theorem ihl_lt (skb : SkBuff) : skb.ihl < 16 := Nat.mod_lt _ (by omega)

theorem doff_lt (skb : SkBuff) : skb.doff < 16 := by
  have := (skb.mem (skb.tcp + 12)).isLt
  simp only [doff, tcpDoff]
  omega

/-! ## Another host -/

/-- The bytes of a packet in the buffer of the host that receives it, with the header offsets its
network stack stores. -/
def receive (buf : SkBuff) (bytes : List Byte) : SkBuff :=
  let m := buf.mem.fill buf.data bytes.length fun i => bytes.getD i 0
  { buf with
    mem := m
    len := bytes.length
    frags := []
    networkHeader := buf.data
    transportHeader := buf.data + ipIhl m buf.data * 4 }

theorem receive_located (buf : SkBuff) (bytes : List Byte) : (receive buf bytes).Located :=
  ⟨rfl, rfl⟩

/-- A packet received is a TCP packet when its bytes say so. -/
theorem receive_tcpPacket {buf : SkBuff} {bytes : List Byte}
    (h : let skb := receive buf bytes
      skb.protocol = 6 ∧ 5 ≤ skb.ihl ∧ 5 ≤ skb.doff ∧ skb.ihl * 4 + skb.doff * 4 ≤ skb.len ∧
        skb.len < 2 ^ 16) : (receive buf bytes).TcpPacket := by
  obtain ⟨hproto, hihl, hdoff, hle, hlt⟩ := h
  refine ⟨?_, ⟨receive_located buf bytes, rfl, hproto, hihl, hdoff, hle, hlt⟩⟩
  rw [headlen_of_linear rfl]
  omega

/-- Byte by byte the packet received is the packet sent. -/
theorem receive_mem (buf : SkBuff) {skb : SkBuff} (h : skb.frags = []) {i : Nat}
    (hi : i < skb.len) :
    (receive buf skb.packet).mem (buf.data + i) = skb.mem (skb.data + i) := by
  simp only [receive, packet_of_linear h, Mem.bytes_length, Mem.fill_at]
  rw [if_pos (by omega), Nat.add_sub_cancel_left, List.getD_eq_getElem?_getD,
    List.getElem?_eq_getElem (by simpa using hi)]
  simp

theorem receive_len (buf : SkBuff) {skb : SkBuff} (h : skb.frags = []) :
    (receive buf skb.packet).len = skb.len := by
  simp [receive, packet_of_linear h]

theorem receive_ihl (buf : SkBuff) {skb : SkBuff} (h : skb.frags = []) (hlen : 0 < skb.len) :
    (receive buf skb.packet).ihl = skb.ihl := by
  have h0 := receive_mem buf h hlen
  simp only [Nat.add_zero] at h0
  have hdata : (receive buf skb.packet).data = buf.data := rfl
  simp only [ihl, ipIhl, hdata, h0]

theorem receive_tcp (buf : SkBuff) {skb : SkBuff} (h : skb.frags = []) (hlen : 0 < skb.len) :
    (receive buf skb.packet).tcp = buf.data + skb.ihl * 4 := by
  rw [tcp, receive_ihl buf h hlen]
  rfl

theorem receive_doff (buf : SkBuff) {skb : SkBuff} (h : skb.frags = [])
    (hlen : skb.ihl * 4 + 12 < skb.len) : (receive buf skb.packet).doff = skb.doff := by
  rw [doff, receive_tcp buf h (by omega)]
  simp only [tcpDoff, doff, tcp, Nat.add_assoc]
  rw [receive_mem buf h hlen]

end SkBuff

end Sky
end Xsky
