import Xsky.Sky.Hooks
import Xsky.Sky.RoundTrip

/-!
# Sky.Tunnel

A connection through both hooks: what leaves the route hook is what the server hook receives.

No connection gets through as it is (`never_transparent`), because its SYN does not. The route hook
makes the SYN 8 bytes longer but stores the new header lengths next to the headers, so that the
receiver counts 8 bytes too many to the payload. The one way for the lengths to come out right is
that the loop over the payload, started at a place computed from those lengths, runs into the
header and changes `doff` itself; and then it has changed the payload too.

* `route_plain_target` — of the other packets not even the destination changes.
* `Tunnelled`          — the bytes of a SYN the argument is about, when it leaves the route hook.
* `server_final`, `final_spec` — the same for the server hook, whatever it does.
-/

namespace Xsky
namespace Sky

open Kit

/-- A packet on its way, with the stacks of both hooks and the buffer it is received in. -/
structure Trip where
  sent : SkBuff
  routeFrame : RouteFrame
  buf : SkBuff
  serverFrame : ServerFrame

/-- A packet from `c` to `site`. -/
structure Sends (c site : Endpoint) (skb : SkBuff) : Prop where
  tcp : skb.TcpPacket
  origin : skb.flat.origin = c
  target : skb.flat.target = site

/-- Every packet leaves the first hook for the server and the second one as it was sent. -/
def Transparent (k : Kernel) (servers : BitVec 32) (c site : Endpoint) : Routes → List Trip → Prop
  | _, [] => True
  | r, t :: ts =>
    ∃ out final r',
      routePreRoutingSky k t.routeFrame servers t.sent = some (.accept, out) ∧
      out.target = ⟨servers, portSky⟩ ∧
      serverPreRoutingSky k t.serverFrame r (.receive t.buf out.packet) =
        some (.accept, final, r') ∧
      final.origin = c ∧ final.target = site ∧ final.payload = t.sent.flat.payload ∧
      Transparent k servers c site r' ts

/-- The address begins with 192 or 127. -/
def Endpoint.isLocal (e : Endpoint) : Bool :=
  Mem.byteOf e.addr 0 = 192 || Mem.byteOf e.addr 0 = 127

theorem Sends.isLocalAddr {c site : Endpoint} {skb : SkBuff} (h : Sends c site skb) :
    isLocalAddr skb.mem (skb.networkHeader + 16) = site.isLocal := by
  have hheader := h.tcp.header
  have hdaddr : skb.flat.mem.read32 (skb.flat.data + 16) = site.addr :=
    congrArg Endpoint.addr h.target
  have hbyte := (Mem.read32_eq_iff _ _ _).mp hdaddr 0 (by omega)
  have hnet : skb.networkHeader = skb.data := by
    rw [← SkBuff.flat_networkHeader, h.tcp.flat.network, SkBuff.flat_data]
  rw [Nat.add_zero, SkBuff.flat_data, SkBuff.flat_mem skb (by omega)] at hbyte
  rw [Sky.isLocalAddr, hnet, hbyte, Endpoint.isLocal]

/-- The hook on a packet it takes. -/
theorem route_of_tcp {k : Kernel} {frame : RouteFrame} {servers : BitVec 32} {skb out : SkBuff}
    (htcp : skb.TcpPacket) (hremote : isLocalAddr skb.mem (skb.networkHeader + 16) = false)
    (h : routePreRoutingSky k frame servers skb = some (.accept, out)) :
    if skb.flat.opens then
      8 ≤ skb.flat.data ∧
        finish k (rewrite (sentToa frame.toaSlot skb.flat) servers portSky) = some out
    else finish k skb.flat = some out := by
  simp only [routePreRoutingSky, hremote, htcp.protocol, htcp.flat.opens_eq, Bool.false_eq_true,
    if_false, if_true] at h
  split at h
  · cases h
  · split at h
    · rename_i hopens
      rw [if_pos hopens]
      rw [setToaDataSky_eq _ htcp.flat rfl] at h
      split at h
      · cases h
      · rename_i s hs
        split at hs
        · rename_i hroom
          cases hs
          obtain ⟨o, ho, heq⟩ := Option.map_eq_some_iff.mp h
          cases heq
          exact ⟨hroom, ho⟩
        · cases hs
    · rename_i hopens
      rw [if_neg hopens]
      obtain ⟨o, ho, heq⟩ := Option.map_eq_some_iff.mp h
      cases heq
      exact ho

/-- A packet that is no SYN keeps its destination. -/
theorem route_plain_target {k : Kernel} {frame : RouteFrame} {servers : BitVec 32}
    {skb out : SkBuff} (htcp : skb.TcpPacket)
    (hremote : isLocalAddr skb.mem (skb.networkHeader + 16) = false)
    (hopens : skb.flat.opens = false)
    (h : routePreRoutingSky k frame servers skb = some (.accept, out)) :
    out.target = skb.flat.target := by
  have hout := route_of_tcp htcp hremote h
  rw [hopens, if_neg (by decide)] at hout
  have hihl := htcp.flat.ihl_ge
  have htcpeq := skb.flat.tcp_eq
  obtain ⟨m, c, hm, hat⟩ := finish_headed k htcp.flat.headed
  cases hout.symm.trans hm
  have hih : ipIhl m skb.flat.data = skb.flat.ihl := by
    rw [ipIhl, hat _ (by omega) (by omega)]
    rfl
  have hdaddr : m.read32 (skb.flat.data + 16) = skb.flat.daddr :=
    Mem.read32_congr fun i hi => hat _ (by omega) (by omega)
  have hdest : m.read16 (skb.flat.data + ipIhl m skb.flat.data * 4 + 2) = skb.flat.dest := by
    rw [hih]
    exact Mem.read16_congr fun i hi => hat _ (by omega) (by omega)
  simp only [SkBuff.target, SkBuff.daddr, SkBuff.dest, SkBuff.tcp, SkBuff.ihl, ipDaddr, tcpDest]
    at hdaddr hdest ⊢
  rw [hdaddr, hdest]

/-! ## A SYN in the route hook -/

/-- The least significant byte of a length. -/
def lowByte (n : Nat) : Byte := Mem.byteOf (BitVec.ofInt 32 n) 0

theorem byteOf_ofInt {n : Nat} (h : n < 2 ^ 32) (i : Nat) :
    (Mem.byteOf (BitVec.ofInt 32 n) i).toNat = n / 2 ^ (8 * i) % 2 ^ 8 := by
  have hn : ((n : Int) % (2 ^ 32 : Nat)).toNat = n := by omega
  rw [Mem.byteOf_toNat, BitVec.toNat_ofInt, hn]

theorem lowByte_toNat {n : Nat} (h : n < 2 ^ 32) : (lowByte n).toNat = n % 2 ^ 8 := by
  rw [lowByte, byteOf_ofInt h]
  simp

/-- The bytes of a SYN that leaves the route hook that matter here. -/
structure Tunnelled (skb out : SkBuff) : Prop where
  data : out.data + 8 = skb.data
  len : out.len = skb.len + 8
  linear : out.frags = []
  first : out.mem out.data = skb.mem skb.data
  doff : skb.ihl < 14 ∨ skb.doff ≠ 13 → out.mem (skb.tcp + 4) = skb.mem (skb.tcp + 12)
  doff_changed : 14 ≤ skb.ihl → skb.doff = 13 →
    out.mem (skb.tcp + 4) = skb.mem (skb.tcp + 12) ^^^ lowByte (skb.payloadLen + 56)
  second : 14 ≤ skb.ihl → skb.doff = 13 → out.mem (skb.tcp + 53) = skb.mem (skb.tcp + 53)
  ninth : 14 ≤ skb.ihl → skb.doff = 13 → 8 < skb.payloadLen →
    out.mem (skb.tcp + 60) = skb.mem (skb.tcp + 60) ^^^ lowByte (skb.payloadLen + 56)

section Route

variable {slot : Mem} {servers : BitVec 32} {skb : SkBuff}

/-- A byte of the headers moved down. -/
theorem tunnelled_low (htcp : skb.Tcp) (hroom : 8 ≤ skb.data) {x : Nat} (hlow : skb.data ≤ x + 8)
    (hhigh : x < skb.tcp + 12) (hx : x ≠ skb.data)
    (haddr : x < skb.data + 16 ∨ skb.data + 20 ≤ x) (hport : x < skb.tcp + 2 ∨ skb.tcp + 4 ≤ x) :
    (rewrite (sentToa slot skb) servers portSky).mem x = skb.mem (x + 8) := by
  have htcpeq := skb.tcp_eq
  have hnet : (sentToa slot skb).networkHeader = skb.data := htcp.network
  have htrans : (sentToa slot skb).transportHeader = skb.tcp := htcp.transport
  rw [rewrite_outside _ _ _ (by rw [hnet]; exact haddr) (by rw [htrans]; exact hport)]
  simp only [sentToa, withToa]
  rw [if_neg (by omega), if_neg (by omega), if_pos (by omega)]

/-- A byte behind the headers. -/
theorem tunnelled_high (htcp : skb.Tcp) (hroom : 8 ≤ skb.data) {x : Nat} (hx : skb.tcp + 20 ≤ x) :
    (rewrite (sentToa slot skb) servers portSky).mem x = skb.mem x := by
  have htcpeq := skb.tcp_eq
  have hnet : (sentToa slot skb).networkHeader = skb.data := htcp.network
  have htrans : (sentToa slot skb).transportHeader = skb.tcp := htcp.transport
  rw [rewrite_outside _ _ _ (by rw [hnet]; omega) (by rw [htrans]; omega)]
  simp only [sentToa, withToa]
  rw [if_neg (by omega), if_neg (by omega), if_neg (by omega), if_neg (by omega)]

variable (slot servers) in
/-- The header lengths the loop over the payload goes by. -/
theorem tunnelled_lengths (htcp : skb.Tcp) (hroom : 8 ≤ skb.data) :
    ipIhl (rewrite (sentToa slot skb) servers portSky).mem skb.data = (skb.ihl + 2) % 16 ∧
      tcpDoff (rewrite (sentToa slot skb) servers portSky).mem skb.tcp = (skb.doff + 2) % 16 := by
  have hihl := htcp.ihl_ge
  have htcpeq := skb.tcp_eq
  have hnet : (sentToa slot skb).networkHeader = skb.data := htcp.network
  have htrans : (sentToa slot skb).transportHeader = skb.tcp := htcp.transport
  constructor
  · rw [ipIhl, rewrite_outside _ _ _ (by rw [hnet]; omega) (by rw [htrans]; omega)]
    simp only [sentToa, withToa]
    rw [if_pos (by omega), BitVec.toNat_ofNat]
    omega
  · rw [tcpDoff, rewrite_outside _ _ _ (by rw [hnet]; omega) (by rw [htrans]; omega)]
    simp only [sentToa, withToa]
    rw [if_neg (by omega), if_pos (by omega), BitVec.toNat_ofNat]
    omega

/-- No power of 8 is between 8 and 64. -/
theorem pow_eight_cases (j : Nat) : 8 ^ j = 1 ∨ 8 ^ j = 8 ∨ 64 ≤ 8 ^ j := by
  match j with
  | 0 => exact .inl rfl
  | 1 => exact .inr (.inl rfl)
  | j + 2 =>
    have := Nat.pow_pos (n := j) (show 0 < 8 by omega)
    refine .inr (.inr ?_)
    rw [Nat.pow_succ, Nat.pow_succ]
    omega

variable (slot servers) in
/-- Where the loop over the payload starts: 8 bytes into it, or 56 before it when `ihl` has wrapped
around. -/
theorem tunnelled_span (htcp : skb.Tcp) (hroom : 8 ≤ skb.data) (hdoff : skb.doff ≤ 13) :
    let sent := rewrite (sentToa slot skb) servers portSky
    (skb.ihl < 14 → sent.dataPtr = skb.tcp + skb.doff * 4 + 8) ∧
      (14 ≤ skb.ihl → sent.dataPtr + 56 = skb.tcp + skb.doff * 4 ∧
        sent.dataLen = (skb.payloadLen + 56 : Nat)) ∧
      sent.dataLen ≤ 2 ^ 30 := by
  intro sent
  have hihl := skb.ihl_lt
  have hle := htcp.headers_le
  have hlt := htcp.len_lt
  have htcpeq := skb.tcp_eq
  have hpayload : skb.payloadLen = skb.len - skb.ihl * 4 - skb.doff * 4 := rfl
  obtain ⟨hsihl, hsdoff⟩ := tunnelled_lengths slot servers htcp hroom
  have hnet : sent.networkHeader = skb.data := htcp.network
  have htrans : sent.transportHeader = skb.tcp := htcp.transport
  have hptr : sent.dataPtr = skb.data - 8 + (skb.ihl + 2) % 16 * 4 + (skb.doff + 2) % 16 * 4 := by
    rw [SkBuff.dataPtr, hnet, htrans, hsihl, hsdoff]
    rfl
  have hdlen : sent.dataLen =
      (skb.len + 8 : Nat) - ((skb.ihl + 2) % 16 * 4 : Nat) - ((skb.doff + 2) % 16 * 4 : Nat) := by
    have hlen : sent.len = skb.len + 8 := rfl
    rw [SkBuff.dataLen, hnet, htrans, hsihl, hsdoff, hlen, Int.bmod_eq_of_le (by omega) (by omega)]
    omega
  rw [hptr, hdlen]
  refine ⟨fun h14 => ?_, fun h14 => ⟨?_, ?_⟩, ?_⟩
  · omega
  · omega
  · omega
  · omega

theorem route_out {k : Kernel} {out : SkBuff} (htcp : skb.Tcp) (hroom : 8 ≤ skb.data)
    (hdoff : skb.doff ≤ 13)
    (h : finish k (rewrite (sentToa slot skb) servers portSky) = some out) :
    Tunnelled skb out := by
  have hihl := htcp.ihl_ge
  have hdoff' := htcp.doff_ge
  have htcpeq := skb.tcp_eq
  obtain ⟨hfar, hnear, hlen⟩ := tunnelled_span slot servers htcp hroom hdoff
  have hlow := @tunnelled_low slot servers skb htcp hroom
  have hhigh := @tunnelled_high slot servers skb htcp hroom
  have hnet : (rewrite (sentToa slot skb) servers portSky).networkHeader = skb.data := htcp.network
  have htrans : (rewrite (sentToa slot skb) servers portSky).transportHeader = skb.tcp :=
    htcp.transport
  obtain ⟨m, c, hm, hat⟩ := finish_spec k (rewrite (sentToa slot skb) servers portSky) hlen
  cases h.symm.trans hm
  rw [hnet, htrans] at hat
  generalize (rewrite (sentToa slot skb) servers portSky).dataPtr = p at *
  generalize (rewrite (sentToa slot skb) servers portSky).dataLen = n at *
  have hp : skb.data < p := by
    by_cases h14 : skb.ihl < 14
    · have := hfar h14
      omega
    · have := (hnear (by omega)).1
      omega
  refine ⟨Nat.sub_add_cancel hroom, rfl, htcp.linear, ?_, fun hno => ?_, fun h14 h13 => ?_,
    fun h14 h13 => ?_, fun h14 h13 h8 => ?_⟩
  · change m (skb.data - 8) = _
    rw [(hat _ (by omega) (by omega)).1 ?_,
      hlow (by omega) (by omega) (by omega) (by omega) (by omega), Nat.sub_add_cancel hroom]
    rintro j ⟨_, hwin, _⟩
    omega
  · change m (skb.tcp + 4) = _
    rw [(hat _ (by omega) (by omega)).1 ?_,
      hlow (by omega) (by omega) (by omega) (by omega) (by omega)]
    rintro j ⟨_, hwin, hwin'⟩
    by_cases h14 : skb.ihl < 14
    · have := hfar h14
      omega
    · -- the loop passes the byte by: it is between 12 and 40 bytes from where that started
      have := (hnear (by omega)).1
      have := pow_eight_cases j
      omega
  · obtain ⟨hp, hn⟩ := hnear h14
    rw [h13] at hp
    change m (skb.tcp + 4) = _
    rw [(hat _ (by omega) (by omega)).2 1 ⟨by omega, by omega, by omega⟩, hn,
      hlow (by omega) (by omega) (by omega) (by omega) (by omega), lowByte]
    congr 2
    omega
  · obtain ⟨hp, _⟩ := hnear h14
    rw [h13] at hp
    change m (skb.tcp + 53) = _
    rw [(hat _ (by omega) (by omega)).1 ?_, hhigh (by omega)]
    rintro j ⟨_, hwin, hwin'⟩
    have := pow_eight_cases j
    omega
  · obtain ⟨hp, hn⟩ := hnear h14
    rw [h13] at hp
    change m (skb.tcp + 60) = _
    rw [(hat _ (by omega) (by omega)).2 2 ⟨by omega, by omega, by omega⟩, hn, hhigh (by omega),
      lowByte]
    congr 2
    omega

end Route

/-! ## The server hook -/

section Server

variable {rx final : SkBuff}

/-- The hook sends the packet on with some destination, or leaves it as it is. -/
theorem server_final {k : Kernel} {frame : ServerFrame} {r r' : Routes} {v : Verdict}
    (hlin : rx.frags = []) (h : serverPreRoutingSky k frame r rx = some (v, final, r')) :
    final = rx ∨ ∃ addr port, finish k (rewrite rx addr port) = some final := by
  have hflat : rx.flat = rx := SkBuff.flat_of_linear hlin
  have hleave : ∀ addr port (r1 : Routes),
      (finish k (rewrite rx addr port)).map (fun skb => (Verdict.accept, skb, r1)) =
        some (v, final, r') → ∃ addr port, finish k (rewrite rx addr port) = some final := by
    intro addr port r1 hmap
    obtain ⟨o, ho, heq⟩ := Option.map_eq_some_iff.mp hmap
    cases heq
    exact ⟨addr, port, ho⟩
  have hsame : ∀ v1 (r1 : Routes), some (v1, rx, r1) = some (v, final, r') → final = rx := by
    intro v1 r1 heq
    cases heq
    rfl
  simp only [serverPreRoutingSky, hflat] at h
  split at h
  · exact .inl (hsame _ _ h)
  · split at h
    · split at h
      · exact .inl (hsame _ _ h)
      · split at h
        · split at h
          · exact .inr (hleave _ _ _ h)
          · split at h
            · exact .inl (hsame _ _ h)
            · split at h
              · exact .inr (hleave _ _ _ h)
              · exact .inr (hleave _ _ _ h)
        · exact .inl (hsame _ _ h)
    · exact .inl (hsame _ _ h)

/-- A packet sent on: its length, and its bytes from the flags of the TCP header on. -/
structure SentOn (rx final : SkBuff) : Prop where
  data : final.data = rx.data
  len : final.len = rx.len
  ihl : final.ihl = rx.ihl
  other : ∀ x, rx.tcp + 4 ≤ x → x < rx.tcp + 16 ∨ rx.tcp + 18 ≤ x →
    (∀ j, ¬ InWindow (rx.tcp + rx.doff * 4) (rx.payloadLen : Nat) 1 j x) →
    final.mem x = rx.mem x
  changed : ∀ x, rx.tcp + 4 ≤ x → x < rx.tcp + 16 ∨ rx.tcp + 18 ≤ x →
    ∀ j, InWindow (rx.tcp + rx.doff * 4) (rx.payloadLen : Nat) 1 j x →
    final.mem x = rx.mem x ^^^
      Mem.byteOf (BitVec.ofInt 32 (rx.payloadLen : Nat)) (x - (rx.tcp + rx.doff * 4 + 1 * 8 ^ j))

theorem final_spec {k : Kernel} {addr : BitVec 32} {port : BitVec 16} (hloc : rx.Located)
    (hihl : 5 ≤ rx.ihl) (hle : rx.ihl * 4 + rx.doff * 4 ≤ rx.len) (hlt : rx.len < 2 ^ 17)
    (h : finish k (rewrite rx addr port) = some final) : SentOn rx final := by
  have htcpeq := rx.tcp_eq
  have hpayload : rx.payloadLen = rx.len - rx.ihl * 4 - rx.doff * 4 := rfl
  have hnet : (rewrite rx addr port).networkHeader = rx.data := hloc.network
  have htrans : (rewrite rx addr port).transportHeader = rx.tcp := hloc.transport
  have hdata : (rewrite rx addr port).data = rx.data := rfl
  have hlen : (rewrite rx addr port).len = rx.len := rfl
  have hother : ∀ x, (x < rx.data + 16 ∨ rx.data + 20 ≤ x) → (x < rx.tcp + 2 ∨ rx.tcp + 4 ≤ x) →
      (rewrite rx addr port).mem x = rx.mem x := fun x h1 h2 => rewrite_other hloc addr port h1 h2
  have hih : ipIhl (rewrite rx addr port).mem rx.data = rx.ihl := by
    rw [ipIhl, hother _ (by omega) (by omega)]
    rfl
  have hdo : tcpDoff (rewrite rx addr port).mem rx.tcp = rx.doff := by
    rw [tcpDoff, hother _ (by omega) (by omega)]
    rfl
  have hptr : (rewrite rx addr port).dataPtr = rx.tcp + rx.doff * 4 := by
    rw [SkBuff.dataPtr, hnet, htrans, hih, hdo, hdata]
    omega
  have hdlen : (rewrite rx addr port).dataLen = (rx.payloadLen : Nat) := by
    rw [SkBuff.dataLen, hnet, htrans, hih, hdo, hlen, Int.bmod_eq_of_le (by omega) (by omega)]
    omega
  obtain ⟨m, c, hm, hat⟩ := finish_spec k (rewrite rx addr port) (by rw [hdlen]; omega)
  cases h.symm.trans hm
  rw [hnet, htrans, hptr, hdlen] at hat
  refine ⟨rfl, rfl, ?_, fun x hlow hcheck hno => ?_, fun x hlow hcheck j hj => ?_⟩
  · change ipIhl m rx.data = _
    rw [ipIhl, (hat _ (by omega) (by omega)).1 ?_, hother _ (by omega) (by omega)]
    · rfl
    · rintro j ⟨_, hin, _⟩
      omega
  · change m x = _
    rw [(hat x (by omega) (by omega)).1 hno, hother x (by omega) (by omega)]
  · change m x = _
    rw [(hat x (by omega) (by omega)).2 j hj, hother x (by omega) (by omega)]

end Server

/-! ## The payload of the SYN -/

section Payload

variable {skb out rx final : SkBuff}

/-- A SYN that left the route hook, in the buffer of the server. -/
structure Received (skb out rx : SkBuff) : Prop where
  located : rx.Located
  linear : rx.frags = []
  len : rx.len = skb.len + 8
  ihl : rx.ihl = skb.ihl
  mem : ∀ p, skb.ihl * 4 + p < skb.len → rx.mem (rx.tcp + 8 + p) = out.mem (skb.tcp + p)

theorem received (htcp : skb.Tcp) (h : Tunnelled skb out) (buf : SkBuff) :
    Received skb out (.receive buf out.packet) := by
  have hdata := h.data
  have hlen := h.len
  have hle := htcp.headers_le
  have hihl := htcp.ihl_ge
  have htcpeq := skb.tcp_eq
  have hoihl : out.ihl = skb.ihl := by
    rw [SkBuff.ihl, ipIhl, h.first]
    rfl
  refine ⟨SkBuff.receive_located buf _, rfl, ?_, ?_, fun p hp => ?_⟩
  · rw [SkBuff.receive_len buf h.linear, hlen]
  · rw [SkBuff.receive_ihl buf h.linear (by omega), hoihl]
  · rw [SkBuff.receive_tcp buf h.linear (by omega), hoihl, Nat.add_assoc, Nat.add_assoc,
      SkBuff.receive_mem buf h.linear (by omega)]
    congr 1
    omega

/-- Packets with the same payload have it in the same place of their memory. -/
theorem payload_eq (h : final.payload = skb.payload) :
    final.payloadLen = skb.payloadLen ∧ ∀ p, p < skb.payloadLen →
      final.mem (final.tcp + final.doff * 4 + p) = skb.mem (skb.tcp + skb.doff * 4 + p) := by
  have hlen : final.payloadLen = skb.payloadLen := by
    have := congrArg List.length h
    simpa [SkBuff.payload] using this
  refine ⟨hlen, fun p hp => ?_⟩
  have hget : final.payload[p]? = skb.payload[p]? := by rw [h]
  simp only [SkBuff.payload] at hget
  rw [List.getElem?_eq_getElem (by simpa [hlen] using hp),
    List.getElem?_eq_getElem (by simpa using hp)] at hget
  simpa using hget

theorem xor_high (a b : Byte) : (a ^^^ b).toNat / 16 = (a.toNat / 16) ^^^ (b.toNat / 16) := by
  rw [BitVec.toNat_xor]
  exact Nat.xor_div_two_pow (n := 4)

theorem xor_eq_self {a b : Byte} (h : a ^^^ b = a) : b.toNat = 0 := by
  have hb : b = 0 := by
    have hx : a ^^^ (a ^^^ b) = a ^^^ a := by rw [h]
    rw [← BitVec.xor_assoc, BitVec.xor_self, BitVec.zero_xor] at hx
    exact hx
  rw [hb]
  rfl

/-- The lengths come out right only if `doff` has grown by 2. -/
theorem doff_grown (htcp : skb.Tcp) (hlen : final.len = skb.len + 8) (hihl : final.ihl = skb.ihl)
    (h : final.payloadLen = skb.payloadLen) : skb.doff + 2 ≤ final.doff := by
  have hle := htcp.headers_le
  simp only [SkBuff.payloadLen, hlen, hihl] at h
  omega

theorem doff_eq (hdata : final.data = rx.data) (hihl : final.ihl = rx.ihl) :
    final.doff = (final.mem (rx.tcp + 12)).toNat / 16 := by
  rw [SkBuff.doff, SkBuff.tcp, hdata, hihl]
  rfl

/-- When the route hook has left `doff` alone, the server hook does too. -/
theorem doff_kept (htcp : skb.Tcp) (hrx : Received skb out rx) (hdoff : rx.doff = skb.doff)
    (hfinal : final = rx ∨ SentOn rx final) : final.doff = skb.doff := by
  have hge := htcp.doff_ge
  obtain rfl | hs := hfinal
  · exact hdoff
  · rw [doff_eq hs.data hs.ihl, hs.other _ (by omega) (by omega) ?_]
    · exact hdoff
    · rintro j ⟨_, hlow, _⟩
      have := pow_eight_cases j
      omega

/-- When the route hook has made it 15, the payload has changed in one of the two hooks. -/
theorem payload_changed (htcp : skb.Tcp) (hout : Tunnelled skb out) (hrx : Received skb out rx)
    (h14 : 14 ≤ skb.ihl) (h13 : skb.doff = 13) (h15 : rx.doff = 15)
    (hhigh : (lowByte (skb.payloadLen + 56)).toNat / 16 = 2)
    (hfinal : final = rx ∨ SentOn rx final) (hgrown : final.doff = 15) :
    final.payload ≠ skb.payload := by
  intro heq
  have hle := htcp.headers_le
  have hlt := htcp.len_lt
  have hn : skb.payloadLen = skb.len - skb.ihl * 4 - skb.doff * 4 := rfl
  obtain ⟨_, hbytes⟩ := payload_eq heq
  rw [hgrown, h13] at hbytes
  have hlow : (lowByte (skb.payloadLen + 56)).toNat = (skb.payloadLen + 56) % 2 ^ 8 :=
    lowByte_toNat (by omega)
  have hlong : 232 ≤ skb.payloadLen := by omega
  obtain rfl | hs := hfinal
  · have h8 := hbytes 8 (by omega)
    have hmem := hrx.mem 60 (by omega)
    rw [hout.ninth h14 h13 (by omega)] at hmem
    rw [show final.tcp + 15 * 4 + 8 = final.tcp + 8 + 60 by omega, hmem,
      show skb.tcp + 13 * 4 + 8 = skb.tcp + 60 by omega] at h8
    have := xor_eq_self h8
    omega
  · have h1 := hbytes 1 (by omega)
    have htcp' : final.tcp = rx.tcp := by rw [SkBuff.tcp, hs.data, hs.ihl]; rfl
    have hmem := hrx.mem 53 (by omega)
    rw [hout.second h14 h13] at hmem
    have hrn : rx.payloadLen = skb.payloadLen := by
      rw [SkBuff.payloadLen, hrx.len, hrx.ihl, h15]
      omega
    have hchanged := hs.changed (rx.tcp + 61) (by omega) (by omega) 0
      (by rw [h15, hrn]; refine ⟨?_, ?_, ?_⟩ <;> omega)
    rw [h15, hrn, show rx.tcp + 61 - (rx.tcp + 15 * 4 + 1 * 8 ^ 0) = 0 by omega,
      show rx.tcp + 61 = rx.tcp + 8 + 53 by omega, hmem] at hchanged
    rw [htcp', show rx.tcp + 15 * 4 + 1 = rx.tcp + 8 + 53 by omega, hchanged,
      show skb.tcp + 13 * 4 + 1 = skb.tcp + 53 by omega] at h1
    have hzero := xor_eq_self h1
    rw [byteOf_ofInt (by omega)] at hzero
    omega

/-- When it has made it anything else, the server hook does not make it 15. -/
theorem doff_not_mended (hrx : Received skb out rx) (hn : skb.payloadLen < 2 ^ 16)
    (hlen : skb.len = skb.ihl * 4 + skb.doff * 4 + skb.payloadLen) (h13 : skb.doff = 13)
    (hbyte : rx.mem (rx.tcp + 12) = skb.mem (skb.tcp + 12) ^^^ lowByte (skb.payloadLen + 56))
    (hs : SentOn rx final) (hne : rx.doff ≠ 15) : final.doff ≠ 15 := by
  have hdoff : final.doff = (final.mem (rx.tcp + 12)).toNat / 16 := doff_eq hs.data hs.ihl
  have hrdoff : rx.doff = (rx.mem (rx.tcp + 12)).toNat / 16 := rfl
  have hrn : rx.payloadLen = skb.payloadLen + 60 - rx.doff * 4 := by
    rw [SkBuff.payloadLen, hrx.len, hrx.ihl]
    omega
  by_cases hwin : ∃ j, InWindow (rx.tcp + rx.doff * 4) (rx.payloadLen : Nat) 1 j (rx.tcp + 12)
  · obtain ⟨j, hj⟩ := hwin
    have hchanged := hs.changed _ (by omega) (by omega) j hj
    obtain ⟨_, hlow, hhigh⟩ := hj
    obtain h1 | h8 | h64 := pow_eight_cases j
    · -- the fourth byte of a length below 2 ^ 24 is 0
      have h2 : rx.doff = 2 := by omega
      rw [show rx.tcp + 12 - (rx.tcp + rx.doff * 4 + 1 * 8 ^ j) = 3 by omega] at hchanged
      have hzero : (Mem.byteOf (BitVec.ofInt 32 (rx.payloadLen : Nat)) 3).toNat / 16 = 0 := by
        rw [byteOf_ofInt (by omega)]
        omega
      rw [hdoff, hchanged, xor_high, hzero, Nat.xor_zero, ← hrdoff]
      exact hne
    · -- the same byte once more
      have h1 : rx.doff = 1 := by omega
      have h56 : rx.payloadLen = skb.payloadLen + 56 := by omega
      rw [show rx.tcp + 12 - (rx.tcp + rx.doff * 4 + 1 * 8 ^ j) = 0 by omega, hbyte, h56,
        BitVec.xor_assoc, lowByte, BitVec.xor_self, BitVec.xor_zero] at hchanged
      rw [hdoff, hchanged]
      have : skb.doff = (skb.mem (skb.tcp + 12)).toNat / 16 := rfl
      omega
    · omega
  · rw [hdoff, hs.other _ (by omega) (by omega) (fun j hj => hwin ⟨j, hj⟩), ← hrdoff]
    exact hne

/-- The payload of a SYN never arrives. -/
theorem syn_payload (htcp : skb.Tcp) (hout : Tunnelled skb out) (hrx : Received skb out rx)
    (hdoff : skb.doff ≤ 13)
    (hfinal : final = rx ∨ ∃ k addr port, finish k (rewrite rx addr port) = some final) :
    final.payload ≠ skb.payload := by
  intro heq
  have hle := htcp.headers_le
  have hlt := htcp.len_lt
  have hge := htcp.doff_ge
  have hihl := htcp.ihl_ge
  have hn : skb.payloadLen = skb.len - skb.ihl * 4 - skb.doff * 4 := rfl
  have hbyte : rx.mem (rx.tcp + 12) = out.mem (skb.tcp + 4) := hrx.mem 4 (by omega)
  have hrdoff : rx.doff = (rx.mem (rx.tcp + 12)).toNat / 16 := rfl
  have hrdoff_lt := rx.doff_lt
  have hroom : rx.ihl * 4 + rx.doff * 4 ≤ rx.len := by
    rw [hrx.ihl, hrx.len]
    by_cases hspecial : skb.ihl < 14 ∨ skb.doff ≠ 13
    · have : rx.doff = skb.doff := by
        rw [hrdoff, hbyte, hout.doff hspecial]
        rfl
      omega
    · omega
  have hsent : final = rx ∨ SentOn rx final := by
    obtain hrx' | ⟨k, addr, port, h⟩ := hfinal
    · exact .inl hrx'
    · exact .inr (final_spec hrx.located (by rw [hrx.ihl]; exact hihl) hroom
        (by rw [hrx.len]; omega) h)
  have hfields : final.data = rx.data ∧ final.len = rx.len ∧ final.ihl = rx.ihl := by
    obtain rfl | hs := hsent
    · exact ⟨rfl, rfl, rfl⟩
    · exact ⟨hs.data, hs.len, hs.ihl⟩
  have hgrown : skb.doff + 2 ≤ final.doff :=
    doff_grown htcp (hfields.2.1.trans hrx.len) (hfields.2.2.trans hrx.ihl) (payload_eq heq).1
  by_cases hspecial : skb.ihl < 14 ∨ skb.doff ≠ 13
  · have hsame : rx.doff = skb.doff := by
      rw [hrdoff, hbyte, hout.doff hspecial]
      rfl
    have := doff_kept htcp hrx hsame hsent
    omega
  · have h14 : 14 ≤ skb.ihl := by omega
    have h13 : skb.doff = 13 := by omega
    have hfinal_lt := final.doff_lt
    have hchanged := hbyte.trans (hout.doff_changed h14 h13)
    by_cases h15 : rx.doff = 15
    · have hhigh : (lowByte (skb.payloadLen + 56)).toNat / 16 = 2 := by
        have hcases : ∀ x, x < 16 → 15 = 13 ^^^ x → x = 2 := by decide
        apply hcases _ (by have := (lowByte (skb.payloadLen + 56)).isLt; omega)
        have horig : 13 = (skb.mem (skb.tcp + 12)).toNat / 16 := h13.symm
        rw [← h15, hrdoff, hchanged, xor_high, ← horig]
      exact payload_changed htcp hout hrx h14 h13 h15 hhigh hsent (by omega) heq
    · obtain rfl | hs := hsent
      · omega
      · exact doff_not_mended hrx (by omega) (by omega) h13 hchanged hs h15 (by omega)

end Payload

/-- No connection gets through the tunnel as it is, whatever the packets after its SYN. -/
theorem never_transparent (k : Kernel) (servers : BitVec 32) {c site : Endpoint} {t : Trip}
    {ts : List Trip} (hsends : ∀ x ∈ t :: ts, Sends c site x.sent)
    (hremote : site.isLocal = false) (hopens : t.sent.flat.opens = true)
    (hdoff : t.sent.flat.doff ≤ 13) : ¬ Transparent k servers c site .empty (t :: ts) := by
  rintro ⟨out, final, r', hroute, _, hserver, _, _, hpayload, _⟩
  have hsend := hsends t List.mem_cons_self
  have hlocal : isLocalAddr t.sent.mem (t.sent.networkHeader + 16) = false := by
    rw [hsend.isLocalAddr]
    exact hremote
  have hout := route_of_tcp hsend.tcp hlocal hroute
  rw [if_pos hopens] at hout
  have htunnel := route_out hsend.tcp.flat hout.1 hdoff hout.2
  have hrx := received hsend.tcp.flat htunnel t.buf
  refine syn_payload hsend.tcp.flat htunnel hrx hdoff ?_ hpayload
  obtain hsame | ⟨addr, port, h⟩ := server_final hrx.linear hserver
  · exact .inl hsame
  · exact .inr ⟨k, addr, port, h⟩

/-! ## A connection of one SYN -/

def synTrip : Trip :=
  ⟨synPacket, ⟨true, site, pointerSlot⟩, freshBuffer, ⟨true, site, .zero, fun _ => 0⟩⟩

/-- 10.0.0.10:36000 -/
def synClient : Endpoint := ⟨0x0a00000a, 0xa08c⟩

/-- 93.184.216.34:443 -/
def synSite : Endpoint := ⟨0x22d8b85d, 0xbb01⟩

/-- 10.0.0.1 -/
def synServers : BitVec 32 := 0x0100000a

theorem synPacket_sends : Sends synClient synSite synPacket where
  tcp := synPacket_tcp
  origin := by decide +kernel
  target := by decide +kernel

theorem never_transparent_syn :
    ¬ Transparent softwareKernel synServers synClient synSite .empty [synTrip] := by
  refine never_transparent softwareKernel synServers (fun x hx => ?_) (by decide +kernel)
    (by decide +kernel) (by decide +kernel)
  cases List.mem_singleton.mp hx
  exact synPacket_sends

/-- The SYN is not even addressed to the server. -/
theorem syn_not_tunnelled :
    ¬ Transparent softwareKernel synServers synClient synSite .empty [synTrip] := by
  rintro ⟨out, _, _, hroute, htarget, _⟩
  have hwrong : (routePreRoutingSky softwareKernel synTrip.routeFrame synServers synTrip.sent).map
      (fun x => x.2.target) ≠ some ⟨synServers, portSky⟩ := by decide +kernel
  apply hwrong
  rw [hroute, Option.map_some, htarget]

end Sky
end Xsky
