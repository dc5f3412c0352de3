import Mathlib.Data.Nat.Log
import Xsky.Kit.Inet
import Xsky.Sky.Hooks

/-!
# Sky.Checksums

The checksums of a packet, and what the end of a hook of `server/server.c` makes of them.

The IP checksum is computed anew once the header is final. The TCP checksum is not, unless
`ip_summed` is `CHECKSUM_HW`, and then over a header with the old one still in its field.

* `scrambled`    — the payload after `xor_data_sky`.
* `Settled`      — the packet when the loop is through and the IP checksum is in.
* `finish_check` — when the TCP checksum is correct in the end.
* `leave_check`  — the same for a packet that is given a destination.
-/

namespace Xsky
namespace Sky

open Kit Inet

/-- `CHECKSUM_NONE` -/
def checksumNone : Nat := 0

/-- `CHECKSUM_UNNECESSARY`, the number the source has for `CHECKSUM_HW` -/
def checksumUnnecessary : Nat := 1

/-- The functions of the kernel compute the Internet checksum: `csum_partial` a sum that is still to
be folded, the others a checksum. -/
structure Kernel.Internet (k : Kernel) : Prop where
  header : ∀ m p ihl, 5 ≤ ihl → k.ipFastCsum m p ihl = checksum (m.bytes p (ihl * 4))
  sum : ∀ m p (n : Nat), fold (k.csumPartial m p n 0) = onesSum (m.bytes p n)
  pseudo : ∀ saddr daddr (n : Nat) proto sum, n < 2 ^ 16 →
    k.csumTcpudpMagic saddr daddr n proto sum =
      ~~~addc (onesSum (pseudoHeader saddr daddr proto n)) (fold sum)

namespace SkBuff

/-- `tcp_h->check` -/
def check (skb : SkBuff) : BitVec 16 := skb.mem.read16 (skb.tcp + 16)

/-- The length of the TCP segment, by the IP header. -/
def segmentLen (skb : SkBuff) : Nat := ipTotLen skb.mem skb.data - skb.ihl * 4

/-- What the TCP checksum is over. -/
def summed (skb : SkBuff) : List Byte :=
  pseudoHeader skb.saddr skb.daddr 6 skb.segmentLen ++ skb.mem.bytes skb.tcp skb.segmentLen

/-- Both checksums are correct. -/
structure Verified (skb : SkBuff) : Prop where
  ip : Verifies (skb.mem.bytes skb.data (skb.ihl * 4))
  tcp : Verifies skb.summed

/-- A TCP packet as the network stack hands it on: cut to the length in its IP header, and with
correct checksums. -/
structure Received (skb : SkBuff) : Prop where
  packet : skb.TcpPacket
  totLen : ipTotLen skb.flat.mem skb.flat.data = skb.len
  verified : skb.flat.Verified
  ipSummed : skb.ipSummed = checksumNone ∨ skb.ipSummed = checksumUnnecessary

end SkBuff

/-! ## The payload -/

/-- What byte `i` of a payload of `n` bytes is combined with: bytes of the length, from every power
of 8 on. -/
def mask (n i : Nat) : Byte :=
  let p := 8 ^ Nat.log 8 i
  if i ≠ 0 ∧ i < p + 4 then Mem.byteOf (BitVec.ofNat 32 n) (i - p) else 0

def scrambled (bs : List Byte) : List Byte := bs.mapIdx fun i b => b ^^^ mask bs.length i

theorem scrambled_length (bs : List Byte) : (scrambled bs).length = bs.length := by
  rw [scrambled, List.length_mapIdx]

theorem window_iff {p n i : Nat} (h : i < n) (j : Nat) :
    InWindow p (n : Int) 1 j (p + i) ↔ i ≠ 0 ∧ j = Nat.log 8 i ∧ i < 8 ^ j + 4 := by
  have hpos := Nat.pow_pos (n := j) (show 0 < 8 by omega)
  simp only [InWindow, Nat.one_mul]
  constructor
  · rintro ⟨hlt, hlow, hhigh⟩
    have hne : i ≠ 0 := by omega
    refine ⟨hne, (Nat.log_eq_of_pow_le_of_lt_pow (by omega) ?_).symm, by omega⟩
    rw [Nat.pow_succ]
    omega
  · rintro ⟨hne, hj, hhigh⟩
    have hle := Nat.pow_log_le_self 8 hne
    rw [← hj] at hle
    omega

/-- The loop over the payload, as far as the packet goes. -/
theorem xorDataSky_bytes (m : Mem) (p : Nat) {n : Nat} (hn : n ≤ 2 ^ 30) :
    ∃ m', xorDataSky m p n = some m' ∧ (∀ x, x ≤ p → m' x = m x) ∧
      m'.bytes p n = scrambled (m.bytes p n) := by
  have hlen : (n : Int) ≤ 2 ^ 30 := by omega
  obtain ⟨m', hm', hout, hin⟩ := xorDataSky_spec m p hlen
  refine ⟨m', hm', fun x hx => hout x ?_, ?_⟩
  · intro j hj
    have hlt := hj.data_lt
    omega
  · apply List.ext_getElem
    · rw [scrambled_length, Mem.bytes_length, Mem.bytes_length]
    · intro i hi _
      rw [Mem.bytes_length] at hi
      simp only [scrambled, List.getElem_mapIdx, Mem.bytes_getElem, Mem.bytes_length, mask]
      split
      · rename_i hwin
        rw [hin _ _ ((window_iff hi _).mpr ⟨hwin.1, rfl, hwin.2⟩), BitVec.ofInt_natCast]
        congr 2
        omega
      · rename_i hwin
        have hno : ∀ j, ¬ InWindow p (n : Int) 1 j (p + i) := by
          intro j hj
          obtain ⟨hne, rfl, hlt⟩ := (window_iff hi j).mp hj
          exact hwin ⟨hne, hlt⟩
        rw [hout _ hno]
        exact BitVec.xor_zero.symm

/-! ## The sum of a packet -/

theorem wordSum_summed (skb : SkBuff) :
    wordSum skb.summed =
      wordSum (pseudoHeader skb.saddr skb.daddr 6 skb.segmentLen) +
        wordSum (skb.mem.bytes skb.tcp skb.segmentLen) :=
  wordSum_append _ _ (by rw [pseudoHeader_length])

/-- The protocol in the pseudo-header is not zero. -/
theorem verifies_summed_iff (skb : SkBuff) :
    Verifies skb.summed ↔ wordSum skb.summed % 65535 = 0 := by
  have hproto : (6 : Byte).toNat = 6 := rfl
  rw [verifies_iff, wordSum_summed, wordSum_pseudoHeader, hproto]
  omega

/-- The IP header is the same, its checksum apart. -/
structure SameHeader (skb out : SkBuff) : Prop where
  data : out.data = skb.data
  other : ∀ x, x < skb.tcp → x < skb.data + 10 ∨ skb.data + 12 ≤ x → out.mem x = skb.mem x

section SameHeader

variable {skb out : SkBuff}

theorem SameHeader.ihl (h : SameHeader skb out) (hihl : 5 ≤ skb.ihl) : out.ihl = skb.ihl := by
  have htcp := skb.tcp_eq
  rw [SkBuff.ihl, h.data, ipIhl, h.other _ (by omega) (by omega)]
  rfl

theorem SameHeader.tcp (h : SameHeader skb out) (hihl : 5 ≤ skb.ihl) : out.tcp = skb.tcp := by
  rw [SkBuff.tcp, h.ihl hihl, h.data]
  rfl

theorem SameHeader.segmentLen (h : SameHeader skb out) (hihl : 5 ≤ skb.ihl) :
    out.segmentLen = skb.segmentLen := by
  have htcp := skb.tcp_eq
  rw [SkBuff.segmentLen, h.ihl hihl, h.data, ipTotLen, Mem.be16, h.other _ (by omega) (by omega),
    h.other _ (by omega) (by omega)]
  rfl

/-- What a change of the segment does to the sum. -/
theorem SameHeader.summed (h : SameHeader skb out) (hihl : 5 ≤ skb.ihl) :
    wordSum out.summed + wordSum (skb.mem.bytes skb.tcp skb.segmentLen) =
      wordSum skb.summed + wordSum (out.mem.bytes skb.tcp skb.segmentLen) := by
  have htcp := skb.tcp_eq
  have hsaddr : out.saddr = skb.saddr := by
    rw [SkBuff.saddr, h.data]
    exact Mem.read32_congr fun i _ => h.other _ (by omega) (by omega)
  have hdaddr : out.daddr = skb.daddr := by
    rw [SkBuff.daddr, h.data]
    exact Mem.read32_congr fun i _ => h.other _ (by omega) (by omega)
  rw [wordSum_summed, wordSum_summed, hsaddr, hdaddr, h.segmentLen hihl, h.tcp hihl]
  omega

end SameHeader

/-! ## The end of a hook -/

/-- The packet but for its TCP checksum. -/
structure Settled (skb : SkBuff) (m : Mem) : Prop where
  headers : ∀ x, x < skb.tcp + skb.doff * 4 → x < skb.data + 10 ∨ skb.data + 12 ≤ x →
    m x = skb.mem x
  ip : Verifies (m.bytes skb.data (skb.ihl * 4))
  payload : m.bytes (skb.tcp + skb.doff * 4) skb.payloadLen = scrambled skb.payload

/-- The TCP checksum, as `finish` computes it. -/
def Kernel.tcpCheck (k : Kernel) (skb : SkBuff) : BitVec 16 :=
  let length : Int := ipTotLen skb.mem skb.data - skb.ihl * 4
  k.csumTcpudpMagic skb.saddr skb.daddr length 6 (k.csumPartial skb.mem skb.tcp length 0)

section Finish

variable {k : Kernel} {skb : SkBuff} {m : Mem}

theorem Settled.sameHeader (h : Settled skb m) : SameHeader skb { skb with mem := m } where
  data := rfl
  other := fun x hx hcheck => h.headers x (by omega) hcheck

theorem finish_settled (hk : k.Internet) (h : skb.Headed)
    (hle : skb.ihl * 4 + skb.doff * 4 ≤ skb.len) :
    ∃ m, Settled skb m ∧ finish k skb =
      some (if skb.ipSummed = checksumHw then
        { skb with
          mem := m.write (skb.tcp + 16) 2 (k.tcpCheck { skb with mem := m }), csum := 16 }
      else { skb with mem := m }) := by
  have hihl := h.ihl_ge
  have hlt := h.len_lt
  have htcp := skb.tcp_eq
  have hptr := h.dataPtr
  have hdlen : skb.dataLen = (skb.payloadLen : Nat) := by
    rw [h.dataLen, SkBuff.payloadLen]
    omega
  have hpay : skb.payloadLen ≤ 2 ^ 30 := by
    rw [SkBuff.payloadLen]
    omega
  obtain ⟨m0, hm0, hfront, hpayload⟩ := xorDataSky_bytes skb.mem skb.dataPtr hpay
  rw [hptr] at hfront hpayload
  have hih0 : ipIhl ((m0.write (skb.data + 10) 2 (0 : BitVec 16))) skb.data = skb.ihl := by
    rw [ipIhl, Mem.write_other _ _ (by omega), hfront _ (by omega)]
    rfl
  have hcsum := hk.header (m0.write (skb.data + 10) 2 (0 : BitVec 16)) skb.data skb.ihl hihl
  let m := (m0.write (skb.data + 10) 2 (0 : BitVec 16)).write (skb.data + 10) 2
    (checksum ((m0.write (skb.data + 10) 2 (0 : BitVec 16)).bytes skb.data (skb.ihl * 4)))
  have hother : ∀ x, x < skb.data + 10 ∨ skb.data + 12 ≤ x → m x = m0 x := by
    intro x hx
    simp only [m]
    rw [Mem.write_other _ _ (by omega), Mem.write_other _ _ (by omega)]
  have hsettled : Settled skb m := by
    refine ⟨fun x hx hcheck => ?_, verifies_write m0 (by omega) (by omega), ?_⟩
    · rw [hother x hcheck, hfront x (by omega)]
    · rw [SkBuff.payload, ← hpayload]
      exact Mem.bytes_congr fun i _ => hother _ (by omega)
  refine ⟨m, hsettled, ?_⟩
  have hcheck : k.tcpCheck { skb with mem := m } =
      let length : Int := ipTotLen m skb.data - ipIhl m skb.data * 4
      k.csumTcpudpMagic (ipSaddr m skb.data) (ipDaddr m skb.data) length 6
        (k.csumPartial m skb.tcp length 0) := by
    rw [Kernel.tcpCheck, hsettled.sameHeader.tcp hihl]
    rfl
  rw [← hdlen] at hm0
  rw [hcheck]
  simp only [finish_of_xor k hm0, h.network, h.transport, hih0, hcsum]
  split
  · rfl
  · rfl

/-- Of the sum, the loop over the payload changes that of the payload. -/
theorem Settled.summed (h : Settled skb m) (hihl : 5 ≤ skb.ihl)
    (hseg : skb.segmentLen = skb.doff * 4 + skb.payloadLen) :
    wordSum ({ skb with mem := m } : SkBuff).summed + wordSum skb.payload =
      wordSum skb.summed + wordSum (scrambled skb.payload) := by
  have htcp := skb.tcp_eq
  have hout : ∀ i, i < skb.segmentLen → i < skb.doff * 4 ∨ skb.doff * 4 + skb.payloadLen ≤ i →
      m (skb.tcp + i) = skb.mem (skb.tcp + i) := by
    intro i hi hfront
    exact h.headers _ (by omega) (by omega)
  have hreplace := wordSum_replace (by omega) (.inr hseg.symm) (by omega) hout
  have hsummed := h.sameHeader.summed hihl
  rw [h.payload] at hreplace
  rw [SkBuff.payload] at hreplace ⊢
  simp only at hsummed
  omega

/-- The TCP checksum computed is that of the packet as it stands, the old checksum included. -/
theorem tcpCheck_add (hk : k.Internet) (hle : skb.ihl * 4 ≤ ipTotLen skb.mem skb.data)
    (hlt : skb.segmentLen < 2 ^ 16) :
    ((k.tcpCheck skb).toNat + wordSum skb.summed) % 65535 = 0 := by
  have hlen : (ipTotLen skb.mem skb.data : Int) - skb.ihl * 4 = (skb.segmentLen : Nat) := by
    rw [SkBuff.segmentLen]
    omega
  have hadd := not_addc_add (pseudoHeader skb.saddr skb.daddr 6 skb.segmentLen)
    (skb.mem.bytes skb.tcp skb.segmentLen)
  rw [Kernel.tcpCheck, wordSum_summed, hlen, hk.pseudo _ _ _ _ _ hlt, hk.sum, ← Nat.add_assoc]
  exact hadd

/-- A packet with another TCP checksum. -/
theorem withCheck_summed (c : BitVec 16) (csum : Nat) (hihl : 5 ≤ skb.ihl)
    (hseg : 18 ≤ skb.segmentLen) :
    let out : SkBuff := { skb with mem := skb.mem.write (skb.tcp + 16) 2 c, csum := csum }
    wordSum out.summed + skb.check.toNat = wordSum skb.summed + c.toNat ∧
      out.mem.bytes out.data (out.ihl * 4) = skb.mem.bytes skb.data (skb.ihl * 4) := by
  intro out
  have htcp := skb.tcp_eq
  have hother : ∀ x, x < skb.tcp → out.mem x = skb.mem x :=
    fun x hx => Mem.write_other _ _ (by omega)
  have hsame : SameHeader skb out := ⟨rfl, fun x hx _ => hother x hx⟩
  constructor
  · have hwrite : wordSum (out.mem.bytes skb.tcp skb.segmentLen) + skb.check.toNat =
        wordSum (skb.mem.bytes skb.tcp skb.segmentLen) + c.toNat :=
      wordSum_write skb.mem c rfl hseg
    have hsummed := hsame.summed hihl
    omega
  · rw [hsame.ihl hihl]
    exact Mem.bytes_congr fun i hi => hother (skb.data + i) (by omega)

/-- The packet a hook is done with: its TCP checksum is correct when it was computed over a field
that adds nothing, or was not computed and still fits. -/
theorem finish_check (hk : k.Internet) (h : skb.Headed)
    (hle : skb.ihl * 4 + skb.doff * 4 ≤ skb.len) (htot : ipTotLen skb.mem skb.data = skb.len) :
    ∃ out, finish k skb = some out ∧ out.frags = skb.frags ∧
      (out.Verified ↔
        if skb.ipSummed = checksumHw then skb.check = 0 ∨ skb.check = 0xffff
        else (wordSum skb.summed + wordSum (scrambled skb.payload)) % 65535 =
          wordSum skb.payload % 65535) := by
  have hihl := h.ihl_ge
  have hdoff := h.doff_ge
  have hlt := h.len_lt
  have htcp := skb.tcp_eq
  have hpaylen : skb.payloadLen = skb.len - skb.ihl * 4 - skb.doff * 4 := rfl
  have hseglen : skb.segmentLen = skb.len - skb.ihl * 4 := by rw [SkBuff.segmentLen, htot]
  obtain ⟨m, hm, hfinish⟩ := finish_settled hk h hle
  let mid : SkBuff := { skb with mem := m }
  have hmid : SameHeader skb mid := hm.sameHeader
  have hmihl : mid.ihl = skb.ihl := hmid.ihl hihl
  have hmtcp : mid.tcp = skb.tcp := hmid.tcp hihl
  have hmseg : mid.segmentLen = skb.segmentLen := hmid.segmentLen hihl
  have hmcheck : mid.check = skb.check := by
    rw [SkBuff.check, hmtcp]
    exact Mem.read16_congr fun i _ => hm.headers _ (by omega) (by omega)
  have hmip : Verifies (mid.mem.bytes mid.data (mid.ihl * 4)) := by
    rw [hmihl]
    exact hm.ip
  by_cases hsummed : skb.ipSummed = checksumHw
  · have htotm : mid.ihl * 4 ≤ ipTotLen mid.mem mid.data := by
      have hpos : 0 < mid.segmentLen := by omega
      rw [SkBuff.segmentLen] at hpos
      omega
    have hadd := tcpCheck_add hk htotm (by omega)
    let out : SkBuff :=
      { mid with mem := mid.mem.write (mid.tcp + 16) 2 (k.tcpCheck mid), csum := 16 }
    have hout : wordSum out.summed + mid.check.toNat =
          wordSum mid.summed + (k.tcpCheck mid).toNat ∧
        out.mem.bytes out.data (out.ihl * 4) = mid.mem.bytes mid.data (mid.ihl * 4) :=
      withCheck_summed _ 16 (by omega) (by omega)
    obtain ⟨hwritten, hip⟩ := hout
    rw [if_pos hsummed, ← hmtcp] at hfinish
    refine ⟨out, hfinish, rfl, ?_⟩
    rw [if_pos hsummed, ← toNat_mod_zero_iff, ← hmcheck]
    constructor
    · intro hout
      have := (verifies_summed_iff _).mp hout.tcp
      omega
    · intro hzero
      refine ⟨?_, (verifies_summed_iff _).mpr ?_⟩
      · rw [hip]
        exact hmip
      · omega
  · have hpayload : wordSum mid.summed + wordSum skb.payload =
        wordSum skb.summed + wordSum (scrambled skb.payload) := hm.summed hihl (by omega)
    rw [if_neg hsummed] at hfinish
    refine ⟨mid, hfinish, rfl, ?_⟩
    rw [if_neg hsummed]
    constructor
    · intro hout
      have := (verifies_summed_iff _).mp hout.tcp
      omega
    · intro hfits
      refine ⟨hmip, (verifies_summed_iff _).mpr ?_⟩
      omega

end Finish

/-! ## A new destination -/

def Endpoint.sum (e : Endpoint) : Nat := halves e.addr + e.port.toNat

section Rewrite

variable {skb : SkBuff}

theorem rewrite_saddr (h : skb.Headed) (addr : BitVec 32) (port : BitVec 16) :
    (rewrite skb addr port).saddr = skb.saddr := by
  have hihl := h.ihl_ge
  have htcp := skb.tcp_eq
  change (rewrite skb addr port).mem.read32 (skb.data + 12) = skb.mem.read32 (skb.data + 12)
  exact Mem.read32_congr fun i _ => rewrite_other h.toLocated addr port (by omega) (by omega)

theorem rewrite_segmentLen (h : skb.Headed) (addr : BitVec 32) (port : BitVec 16) :
    (rewrite skb addr port).segmentLen = skb.segmentLen := by
  have hihl := h.ihl_ge
  have htcp := skb.tcp_eq
  rw [SkBuff.segmentLen, rewrite_ihl h]
  change Mem.be16 _ (skb.data + 2) - _ = _
  rw [Mem.be16, rewrite_other h.toLocated addr port (by omega) (by omega),
    rewrite_other h.toLocated addr port (by omega) (by omega)]
  rfl

/-- Of the sum, a new destination changes that of the destination. -/
theorem rewrite_summed (h : skb.Headed) (hseg : 4 ≤ skb.segmentLen) (e : Endpoint) :
    wordSum (rewrite skb e.addr e.port).summed + skb.target.sum =
      wordSum skb.summed + e.sum := by
  have hihl := h.ihl_ge
  have htcp := skb.tcp_eq
  have hout : ∀ i, i < skb.segmentLen → i < 2 ∨ 2 + 2 ≤ i →
      (rewrite skb e.addr e.port).mem (skb.tcp + i) = skb.mem (skb.tcp + i) := by
    intro i _ hi
    exact rewrite_other h.toLocated _ _ (by omega) (by omega)
  have hport : (rewrite skb e.addr e.port).mem.read16 (skb.tcp + 2) = e.port := by
    have hdest := rewrite_dest h e.addr e.port
    rwa [SkBuff.dest, rewrite_tcp h] at hdest
  have hreplace := wordSum_replace rfl (.inl rfl) hseg hout
  rw [wordSum_bytes_two, wordSum_bytes_two, hport] at hreplace
  rw [wordSum_summed, wordSum_summed, rewrite_saddr h, rewrite_daddr h, rewrite_segmentLen h,
    rewrite_tcp h, wordSum_pseudoHeader, wordSum_pseudoHeader]
  change _ + (halves skb.daddr + (skb.mem.read16 (skb.tcp + 2)).toNat) =
    _ + (halves e.addr + e.port.toNat)
  omega

end Rewrite

/-! ## A packet that leaves -/

/-- The destination and the payload add up to what they did. -/
def Balanced (skb : SkBuff) (e : Endpoint) : Prop :=
  (e.sum + wordSum (scrambled skb.payload)) % 65535 =
    (skb.target.sum + wordSum skb.payload) % 65535

/-- When the TCP checksum of a packet stays correct on its way to `e`. -/
def Spared (skb : SkBuff) (e : Endpoint) : Prop :=
  if skb.ipSummed = checksumHw then skb.check = 0 ∨ skb.check = 0xffff else Balanced skb e

section Leave

variable {k : Kernel} {skb : SkBuff}

theorem leave_check (hk : k.Internet) (h : skb.Tcp) (htot : ipTotLen skb.mem skb.data = skb.len)
    (hv : skb.Verified) (e : Endpoint) :
    ∃ out, finish k (rewrite skb e.addr e.port) = some out ∧ out.frags = [] ∧
      (out.Verified ↔ Spared skb e) := by
  have hheaded := h.headed
  have hihl := h.ihl_ge
  have hdoff := h.doff_ge
  have hle := h.headers_le
  have htcp := skb.tcp_eq
  let sent := rewrite skb e.addr e.port
  have hsihl : sent.ihl = skb.ihl := rewrite_ihl hheaded _ _
  have hsdoff : sent.doff = skb.doff := rewrite_doff hheaded _ _
  have hstcp : sent.tcp = skb.tcp := rewrite_tcp hheaded _ _
  have hother : ∀ i, 4 ≤ i → sent.mem (skb.tcp + i) = skb.mem (skb.tcp + i) :=
    fun i hi => rewrite_other h.toLocated _ _ (by omega) (by omega)
  have hpayload : sent.payload = skb.payload := by
    rw [SkBuff.payload, SkBuff.payloadLen, hstcp, hsdoff, hsihl]
    refine Mem.bytes_congr fun i _ => ?_
    rw [Nat.add_assoc]
    exact hother _ (by omega)
  have hcheck : sent.check = skb.check := by
    rw [SkBuff.check, hstcp]
    refine Mem.read16_congr fun i _ => ?_
    rw [Nat.add_assoc]
    exact hother _ (by omega)
  have hstot : ipTotLen sent.mem sent.data = sent.len := by
    have hseg : sent.segmentLen = skb.segmentLen := rewrite_segmentLen hheaded _ _
    rw [SkBuff.segmentLen, SkBuff.segmentLen, hsihl, htot] at hseg
    have hlen : sent.len = skb.len := rfl
    omega
  obtain ⟨out, hout, hfrags, hiff⟩ :=
    finish_check hk (rewrite_headed hheaded e.addr e.port) (by rw [hsihl, hsdoff]; exact hle) hstot
  refine ⟨out, hout, hfrags.trans h.linear, hiff.trans ?_⟩
  have hseglen : skb.segmentLen = skb.len - skb.ihl * 4 := by rw [SkBuff.segmentLen, htot]
  have hrewrite : wordSum sent.summed + skb.target.sum = wordSum skb.summed + e.sum :=
    rewrite_summed hheaded (by omega) e
  have hverified := (verifies_summed_iff skb).mp hv.tcp
  have hsummed : sent.ipSummed = skb.ipSummed := rfl
  rw [hcheck, hpayload, hsummed, Spared, Balanced]
  split
  · exact Iff.rfl
  · change (wordSum sent.summed + _) % 65535 = _ ↔ _
    omega

end Leave

end Sky
end Xsky
