import Xsky.Sky.Toa

/-!
# Sky.Hooks

The two netfilter hooks of `server/server.c`. `routePreRoutingSky` runs on the host the clients send
through, `serverPreRoutingSky` on the host the connections are tunnelled to.

What the kernel computes is a parameter (`Kernel`), and so is what is on the stack of a call where
the source reads a variable before it writes it (`RouteFrame`, `ServerFrame`). A hook returns `none`
where the kernel panics or a loop does not end.

* `xorDataSky_spec` — what `xor_data_sky` does to each byte.
* `finish_spec`     — the end of both hooks, after the headers are rewritten.
-/

namespace Xsky
namespace Sky

open Kit

structure Kernel where
  ipFastCsum : Mem → Nat → Nat → BitVec 16
  csumPartial : Mem → Nat → Int → BitVec 32 → BitVec 32
  csumTcpudpMagic : BitVec 32 → BitVec 32 → Int → Byte → BitVec 32 → BitVec 16

structure RouteFrame where
  /-- `skb_linearize` returns 0. -/
  linearizes : Bool
  toaData : SkyData
  /-- The memory from the parameter `toa` of `set_toa_data_sky` on. -/
  toaSlot : Mem

structure ServerFrame where
  linearizes : Bool
  data : SkyData
  pair : SkyDataPair
  buff : Mem

/-- The checksum of the IP header as the kernel computes it. The others are for packets whose
checksum the hardware has verified. -/
def softwareKernel : Kernel where
  ipFastCsum m p ihl :=
    let sum := (List.range (ihl * 2)).foldl (fun s i => s + (m.read16 (p + 2 * i)).toNat) 0
    let sum := sum % 2 ^ 16 + sum / 2 ^ 16
    ~~~BitVec.ofNat 16 (sum % 2 ^ 16 + sum / 2 ^ 16)
  csumPartial _ _ _ sum := sum
  csumTcpudpMagic _ _ _ _ sum := ~~~sum.setWidth 16

/-- `CHECKSUM_HW` -/
def checksumHw : Nat := 1

/-- `htons( 48888 )` -/
def portSky : BitVec 16 := 0xf8be

/-- The first byte of an address in memory is 192 or 127. -/
def isLocalAddr (m : Mem) (a : Nat) : Bool := m a = 192 || m a = 127

/-! ## The payload -/

/-- The loop of `xor_data_sky` at `i`; `none` when `i *= 8` overflows. -/
def xorLoop (data : Nat) (length : Int) : Nat → Nat → Mem → Option Mem
  | 0, _, _ => none
  | fuel + 1, i, m =>
    if i < length then
      xorLoop data length fuel (i * 8) (m.xor32 (data + i) (BitVec.ofInt 32 length))
    else some m

/-- Eleven steps take `i` from 1 to `8 ^ 10`, the last power of 8 in an `int`. -/
def xorDataSky (m : Mem) (data : Nat) (length : Int) : Option Mem := xorLoop data length 11 1 m

/-! ## The hooks -/

/-- The end of both hooks: the payload, then the checksums. -/
def finish (k : Kernel) (skb : SkBuff) : Option SkBuff :=
  let ip := skb.networkHeader
  let tcp := skb.transportHeader
  match xorDataSky skb.mem skb.dataPtr skb.dataLen with
  | none => none
  | some m =>
    let m := m.write (ip + 10) 2 (0 : BitVec 16)
    let m := m.write (ip + 10) 2 (k.ipFastCsum m ip (ipIhl m ip))
    if skb.ipSummed = checksumHw then
      let length : Int := ipTotLen m ip - ipIhl m ip * 4
      let check := k.csumTcpudpMagic (ipSaddr m ip) (ipDaddr m ip) length 6
        (k.csumPartial m tcp length 0)
      some { skb with mem := m.write (tcp + 16) 2 check, csum := 16 }
    else some { skb with mem := m }

/-- The destination stored in the headers. -/
def rewrite (skb : SkBuff) (addr : BitVec 32) (port : BitVec 16) : SkBuff :=
  { skb with
    mem := (skb.mem.write (skb.networkHeader + 16) 4 addr).write (skb.transportHeader + 2) 2 port }

def routePreRoutingSky (k : Kernel) (frame : RouteFrame) (servers : BitVec 32) (skb : SkBuff) :
    Option (Verdict × SkBuff) :=
  if isLocalAddr skb.mem (skb.networkHeader + 16) then some (.accept, skb)
  else if ipProtocol skb.mem skb.networkHeader = 6 then
    if skb.frags ≠ [] ∧ frame.linearizes = false then some (.drop, skb)
    else
      let skb := skb.flat
      if tcpSyn skb.mem skb.transportHeader && !tcpAck skb.mem skb.transportHeader then
        let toa :=
          { frame.toaData with
            addr := ipDaddr skb.mem skb.networkHeader
            port := tcpDest skb.mem skb.transportHeader
            code := tcpoptV4Sky
            size := BitVec.ofNat 8 tcpolenV4Sky }
        match setToaDataSky frame.toaSlot skb toa with
        | none => none
        | some skb => (finish k (rewrite skb servers portSky)).map fun skb => (.accept, skb)
      else (finish k skb).map fun skb => (.accept, skb)
  else some (.accept, skb)

/-- The key of an endpoint, in a variable with the bytes of `d`. -/
def SkyData.endpoint (d : SkyData) (addr : BitVec 32) (port : BitVec 16) : SkyData :=
  { d with code := tcpoptV4Sky, size := BitVec.ofNat 8 tcpolenV4Sky, addr := addr, port := port }

def serverPreRoutingSky (k : Kernel) (frame : ServerFrame) (r : Routes) (skb : SkBuff) :
    Option (Verdict × SkBuff × Routes) :=
  if isLocalAddr skb.mem (skb.networkHeader + 16) then some (.accept, skb, r)
  else if ipProtocol skb.mem skb.networkHeader = 6 then
    if skb.frags ≠ [] ∧ frame.linearizes = false then some (.drop, skb, r)
    else
      let skb := skb.flat
      let ip := skb.networkHeader
      let tcp := skb.transportHeader
      let leave (pair : SkyDataPair) (r : Routes) :=
        (finish k (rewrite skb pair.second.addr pair.second.port)).map fun skb =>
          (Verdict.accept, skb, r)
      if tcpDest skb.mem tcp = portSky then
        if tcpSyn skb.mem tcp && !tcpAck skb.mem tcp then
          let data := (getToaDataSky skb frame.buff frame.data).getD frame.data
          let pair : SkyDataPair :=
            ⟨frame.pair.first.endpoint (ipSaddr skb.mem ip) (tcpSource skb.mem tcp), data⟩
          leave pair (insertRouteSky r pair)
        else
          let data := frame.data.endpoint (ipSaddr skb.mem ip) (tcpSource skb.mem tcp)
          match findRouteSky r data with
          | none => some (.accept, skb, r)
          | some p =>
            if tcpRst skb.mem tcp || tcpFin skb.mem tcp then
              leave (r.pair p) (removeRouteSky r data)
            else leave (r.pair p) r
      else some (.accept, skb, r)
  else some (.accept, skb, r)

/-! ## What the loop does -/

/-- `8 ^ j` is an index of the loop, and `x` one of the bytes it changes there. -/
def InWindow (data : Nat) (length : Int) (i j x : Nat) : Prop :=
  ((i * 8 ^ j : Nat) : Int) < length ∧ data + i * 8 ^ j ≤ x ∧ x < data + i * 8 ^ j + 4

theorem InWindow.succ {data i j x : Nat} {length : Int} :
    InWindow data length (i * 8) j x ↔ InWindow data length i (j + 1) x := by
  have h : i * 8 * 8 ^ j = i * 8 ^ (j + 1) := by rw [Nat.pow_succ, Nat.mul_assoc, Nat.mul_comm 8]
  simp only [InWindow, h]

/-- The index of a window is not before the one the loop is at. -/
theorem InWindow.lt {data i j x : Nat} {length : Int} (h : InWindow data length i j x) :
    (i : Int) < length := by
  have h1 : i * 1 ≤ i * 8 ^ j := Nat.mul_le_mul_left i (Nat.pow_pos (by omega))
  have := h.1
  omega

theorem InWindow.data_lt {data j x : Nat} {length : Int} (h : InWindow data length 1 j x) :
    data < x := by
  have hpos := Nat.pow_pos (n := j) (show 0 < 8 by omega)
  have hlow := h.2.1
  omega

theorem le_window (i j : Nat) : i * 8 ≤ i * 8 ^ (j + 1) := by
  rw [Nat.pow_succ, Nat.mul_comm (8 ^ j), ← Nat.mul_assoc]
  exact Nat.le_mul_of_pos_right _ (Nat.pow_pos (by omega))

theorem xorLoop_spec {data : Nat} {length : Int} (n : Nat) {i : Nat} (hi : 1 ≤ i)
    (hlen : length ≤ (i * 8 ^ n : Nat)) (m : Mem) :
    ∃ m', xorLoop data length (n + 1) i m = some m' ∧
      (∀ x, (∀ j, ¬ InWindow data length i j x) → m' x = m x) ∧
      ∀ j x, InWindow data length i j x →
        m' x = m x ^^^ Mem.byteOf (BitVec.ofInt 32 length) (x - (data + i * 8 ^ j)) := by
  induction n generalizing i m with
  | zero =>
    rw [Nat.pow_zero, Nat.mul_one] at hlen
    refine ⟨m, ?_, fun _ _ => rfl, fun j x hw => ?_⟩
    · simp only [xorLoop]
      rw [if_neg (by omega)]
    · have := hw.lt
      omega
  | succ n ih =>
    by_cases hlt : (i : Int) < length
    · have hlen' : length ≤ (i * 8 * 8 ^ n : Nat) := by
        rw [Nat.mul_assoc, Nat.mul_comm 8, ← Nat.pow_succ]
        exact hlen
      obtain ⟨m', hm', hout, hin⟩ :=
        ih (by omega) hlen' (m.xor32 (data + i) (BitVec.ofInt 32 length))
      refine ⟨m', ?_, fun x hx => ?_, fun j x hw => ?_⟩
      · rw [xorLoop, if_pos hlt]
        exact hm'
      · have h0 := hx 0
        simp only [InWindow, Nat.pow_zero, Nat.mul_one, hlt, true_and] at h0
        rw [hout x fun j hw => hx (j + 1) (InWindow.succ.mp hw), Mem.xor32_other _ _ (by omega)]
      · cases j with
        | zero =>
          simp only [InWindow, Nat.pow_zero, Nat.mul_one] at hw ⊢
          rw [hout x ?_, Mem.xor32_at, if_pos hw.2]
          intro j hj
          have h8 := le_window i j
          have := (InWindow.succ.mp hj).2.1
          omega
        | succ j =>
          have h8 := le_window i j
          have hx := hw.2.1
          rw [hin j x (InWindow.succ.mpr hw), Mem.xor32_other _ _ (by omega)]
          congr 2
          rw [Nat.mul_assoc, Nat.mul_comm 8, ← Nat.pow_succ]
    · refine ⟨m, ?_, fun _ _ => rfl, fun j x hw => absurd hw.lt hlt⟩
      rw [xorLoop, if_neg hlt]

/-- Up to a length of `2 ^ 30` the loop ends, and changes the bytes of its windows. -/
theorem xorDataSky_spec (m : Mem) (data : Nat) {length : Int} (hlen : length ≤ 2 ^ 30) :
    ∃ m', xorDataSky m data length = some m' ∧
      (∀ x, (∀ j, ¬ InWindow data length 1 j x) → m' x = m x) ∧
      ∀ j x, InWindow data length 1 j x →
        m' x = m x ^^^ Mem.byteOf (BitVec.ofInt 32 length) (x - (data + 1 * 8 ^ j)) :=
  xorLoop_spec 10 (Nat.le_refl 1) (by omega) m

/-- The end of a hook behind the loop. -/
theorem finish_of_xor (k : Kernel) {skb : SkBuff} {m : Mem}
    (hm : xorDataSky skb.mem skb.dataPtr skb.dataLen = some m) :
    finish k skb =
      let ip := skb.networkHeader
      let tcp := skb.transportHeader
      let m := m.write (ip + 10) 2 (0 : BitVec 16)
      let m := m.write (ip + 10) 2 (k.ipFastCsum m ip (ipIhl m ip))
      if skb.ipSummed = checksumHw then
        let length : Int := ipTotLen m ip - ipIhl m ip * 4
        let check := k.csumTcpudpMagic (ipSaddr m ip) (ipDaddr m ip) length 6
          (k.csumPartial m tcp length 0)
        some { skb with mem := m.write (tcp + 16) 2 check, csum := 16 }
      else some { skb with mem := m } := by
  unfold finish
  rw [hm]

theorem finish_frags {k : Kernel} {skb out : SkBuff} (h : finish k skb = some out) :
    out.frags = skb.frags := by
  cases hm : xorDataSky skb.mem skb.dataPtr skb.dataLen with
  | none =>
    unfold finish at h
    rw [hm] at h
    cases h
  | some m =>
    rw [finish_of_xor k hm] at h
    simp only at h
    split at h
    · cases h
      rfl
    · cases h
      rfl

/-- Apart from what the loop changes, the end of a hook changes the two checksums. -/
theorem finish_other (k : Kernel) {skb : SkBuff} {m0 : Mem}
    (hm0 : xorDataSky skb.mem skb.dataPtr skb.dataLen = some m0) :
    ∃ m c, finish k skb = some { skb with mem := m, csum := c } ∧
      ∀ x, (x < skb.networkHeader + 10 ∨ skb.networkHeader + 12 ≤ x) →
        (x < skb.transportHeader + 16 ∨ skb.transportHeader + 18 ≤ x) → m x = m0 x := by
  have hip : ∀ (v w : BitVec 16) x,
      (x < skb.networkHeader + 10 ∨ skb.networkHeader + 12 ≤ x) →
      ((m0.write (skb.networkHeader + 10) 2 v).write (skb.networkHeader + 10) 2 w) x = m0 x := by
    intro v w x hx
    rw [Mem.write_other _ _ (by omega), Mem.write_other _ _ (by omega)]
  by_cases hsum : skb.ipSummed = checksumHw
  · refine ⟨_, 16, by simp only [finish_of_xor k hm0, if_pos hsum]; rfl, fun x hx htcp => ?_⟩
    rw [Mem.write_other _ _ (by omega), hip _ _ x hx]
  · refine ⟨_, skb.csum, by simp only [finish_of_xor k hm0, if_neg hsum]; rfl, fun x hx _ => ?_⟩
    rw [hip _ _ x hx]

/-- The same by the windows of the loop. -/
theorem finish_spec (k : Kernel) (skb : SkBuff) (hlen : skb.dataLen ≤ 2 ^ 30) :
    ∃ m c, finish k skb = some { skb with mem := m, csum := c } ∧
      ∀ x, (x < skb.networkHeader + 10 ∨ skb.networkHeader + 12 ≤ x) →
        (x < skb.transportHeader + 16 ∨ skb.transportHeader + 18 ≤ x) →
        ((∀ j, ¬ InWindow skb.dataPtr skb.dataLen 1 j x) → m x = skb.mem x) ∧
        ∀ j, InWindow skb.dataPtr skb.dataLen 1 j x →
          m x = skb.mem x ^^^
            Mem.byteOf (BitVec.ofInt 32 skb.dataLen) (x - (skb.dataPtr + 1 * 8 ^ j)) := by
  obtain ⟨m0, hm0, hout, hin⟩ := xorDataSky_spec skb.mem skb.dataPtr hlen
  obtain ⟨m, c, hm, hat⟩ := finish_other k hm0
  refine ⟨m, c, hm, fun x hx htcp => ?_⟩
  rw [hat x hx htcp]
  exact ⟨hout x, fun j => hin j x⟩

/-! ## On a packet whose stored offsets are right -/

section Headed

variable {skb : SkBuff}

theorem SkBuff.Headed.dataPtr (h : skb.Headed) : skb.dataPtr = skb.tcp + skb.doff * 4 := by
  rw [SkBuff.dataPtr, h.network, h.transport]
  rfl

theorem SkBuff.Headed.dataLen (h : skb.Headed) :
    skb.dataLen = (skb.len : Int) - skb.ihl * 4 - skb.doff * 4 := by
  have hihl := skb.ihl_lt
  have hdoff := skb.doff_lt
  have hlt := h.len_lt
  rw [SkBuff.dataLen, h.network, h.transport]
  change Int.bmod (skb.len - skb.ihl * 4 - skb.doff * 4) (2 ^ 32) = _
  rw [Int.bmod_eq_of_le (by omega) (by omega)]

/-- The headers up to the TCP checksum stay, the IP checksum apart. -/
theorem finish_headed (k : Kernel) (h : skb.Headed) :
    ∃ m c, finish k skb = some { skb with mem := m, csum := c } ∧
      ∀ x, x < skb.tcp + 16 → (x < skb.data + 10 ∨ skb.data + 12 ≤ x) → m x = skb.mem x := by
  have hdoff := h.doff_ge
  have hlt := h.len_lt
  have hlen : skb.dataLen ≤ 2 ^ 30 := by
    rw [h.dataLen]
    omega
  obtain ⟨m, c, hm, hat⟩ := finish_spec k skb hlen
  refine ⟨m, c, hm, fun x hx hcheck => ?_⟩
  refine (hat x (by rw [h.network]; exact hcheck) (by rw [h.transport]; omega)).1 ?_
  intro j hj
  have hlt := hj.data_lt
  rw [h.dataPtr] at hlt
  omega

theorem rewrite_outside (skb : SkBuff) (addr : BitVec 32) (port : BitVec 16) {x : Nat}
    (h1 : x < skb.networkHeader + 16 ∨ skb.networkHeader + 20 ≤ x)
    (h2 : x < skb.transportHeader + 2 ∨ skb.transportHeader + 4 ≤ x) :
    (rewrite skb addr port).mem x = skb.mem x := by
  simp only [rewrite]
  rw [Mem.write_other _ _ (by omega), Mem.write_other _ _ (by omega)]

theorem rewrite_other (h : skb.Located) (addr : BitVec 32) (port : BitVec 16) {x : Nat}
    (h1 : x < skb.data + 16 ∨ skb.data + 20 ≤ x) (h2 : x < skb.tcp + 2 ∨ skb.tcp + 4 ≤ x) :
    (rewrite skb addr port).mem x = skb.mem x :=
  rewrite_outside skb addr port (by rw [h.network]; exact h1) (by rw [h.transport]; exact h2)

theorem rewrite_ihl (h : skb.Headed) (addr : BitVec 32) (port : BitVec 16) :
    (rewrite skb addr port).ihl = skb.ihl := by
  have hihl := h.ihl_ge
  have htcp := skb.tcp_eq
  have hdata : (rewrite skb addr port).data = skb.data := rfl
  simp only [SkBuff.ihl, ipIhl, hdata]
  rw [rewrite_other h.toLocated addr port (by omega) (by omega)]

theorem rewrite_tcp (h : skb.Headed) (addr : BitVec 32) (port : BitVec 16) :
    (rewrite skb addr port).tcp = skb.tcp := by
  rw [SkBuff.tcp, rewrite_ihl h]
  rfl

theorem rewrite_doff (h : skb.Headed) (addr : BitVec 32) (port : BitVec 16) :
    (rewrite skb addr port).doff = skb.doff := by
  have hihl := h.ihl_ge
  have htcp := skb.tcp_eq
  rw [SkBuff.doff, rewrite_tcp h, tcpDoff,
    rewrite_other h.toLocated addr port (by omega) (by omega)]
  rfl

theorem rewrite_headed (h : skb.Headed) (addr : BitVec 32) (port : BitVec 16) :
    (rewrite skb addr port).Headed where
  network := h.network
  transport := h.transport.trans (rewrite_tcp h addr port).symm
  ihl_ge := by
    rw [rewrite_ihl h]
    exact h.ihl_ge
  doff_ge := by
    rw [rewrite_doff h]
    exact h.doff_ge
  len_lt := h.len_lt

theorem rewrite_daddr (h : skb.Headed) (addr : BitVec 32) (port : BitVec 16) :
    (rewrite skb addr port).daddr = addr := by
  have hihl := h.ihl_ge
  have htcp := skb.tcp_eq
  have hdaddr : (rewrite skb addr port).daddr =
      (skb.mem.write (skb.data + 16) 4 addr).read32 (skb.data + 16) := by
    simp only [SkBuff.daddr, ipDaddr, rewrite, h.network, h.transport]
    exact Mem.read32_congr fun i _ => Mem.write_other _ _ (by omega)
  rw [hdaddr, Mem.read32_write]

theorem rewrite_dest (h : skb.Headed) (addr : BitVec 32) (port : BitVec 16) :
    (rewrite skb addr port).dest = port := by
  rw [SkBuff.dest, rewrite_tcp h]
  simp only [tcpDest, rewrite, h.transport]
  exact Mem.read16_write _ _ _

/-- A packet that leaves a hook with a new destination has it. -/
theorem leave_spec (k : Kernel) (h : skb.Headed) (addr : BitVec 32) (port : BitVec 16) :
    ∃ out, finish k (rewrite skb addr port) = some out ∧ out.daddr = addr ∧ out.dest = port := by
  have hihl := h.ihl_ge
  have htcp := skb.tcp_eq
  obtain ⟨m, c, hm, hat⟩ := finish_headed k (rewrite_headed h addr port)
  rw [rewrite_tcp h] at hat
  have hdata : (rewrite skb addr port).data = skb.data := rfl
  rw [hdata] at hat
  have hout : ({ rewrite skb addr port with mem := m, csum := c } : SkBuff).tcp = skb.tcp := by
    simp only [SkBuff.tcp, SkBuff.ihl, ipIhl, hdata]
    rw [hat _ (by omega) (by omega), rewrite_other h.toLocated _ _ (by omega) (by omega)]
  refine ⟨_, hm, ?_, ?_⟩
  · rw [← rewrite_daddr h addr port]
    change m.read32 (skb.data + 16) = (rewrite skb addr port).mem.read32 (skb.data + 16)
    exact Mem.read32_congr fun i _ => hat _ (by omega) (by omega)
  · rw [SkBuff.dest, hout, ← rewrite_dest h addr port, SkBuff.dest, rewrite_tcp h]
    exact Mem.read16_congr fun i _ => hat _ (by omega) (by omega)

end Headed

end Sky
end Xsky
