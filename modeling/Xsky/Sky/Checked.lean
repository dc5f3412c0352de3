import Xsky.Sky.Checksums
import Xsky.Sky.Flows
import Xsky.Sky.Handles
import Xsky.Sky.Tunnel

/-!
# Sky.Checked

The checksums of the packets the hooks of `server/server.c` accept.

A packet that came in with `CHECKSUM_NONE` goes out with a TCP checksum that is right only if the
words changed add up to what they did before, and one that came in with `CHECKSUM_UNNECESSARY` only
if the old checksum was a zero. In a SYN the route hook puts an option into, the IP checksum is of
other bytes than the header (`tagged_header`), and the length the TCP checksum is computed over is
read from where the IP checksum was; when a checksum is correct all the same is not said here.

* `serverTarget`    — where the server hook sends a packet.
* `checks_kept_iff` — for either hook, when both checksums are correct.
-/

namespace Xsky
namespace Sky

open Kit Inet

/-! ## A SYN that gets an option -/

/-- The first 8 bytes of the IP header have the sum of the first 16 of the TCP header, as far as the
IP checksum covers that, with the address and the port of the server wherever they end up. -/
def TagFits (slot : Mem) (servers : BitVec 32) (skb : SkBuff) : Prop :=
  wordSum (skb.mem.bytes skb.data 8) % 65535 =
    wordSum ((rewrite (sentToa slot skb) servers portSky).mem.bytes (skb.tcp - 8) 16) % 65535

section Tag

variable {k : Kernel} {skb out : SkBuff} {slot : Mem} {servers : BitVec 32}

/-- A checksum stored in `n` bytes that is over other ones: it begins `s` bytes too late and ends
`e` bytes too late. -/
theorem checksum_shifted (m : Mem) {a k s n : Nat} (e : Nat) (hk : k % 2 = 0) (hs : s % 2 = 0)
    (hn : n % 2 = 0) (hsn : s ≤ n) (hkn : k + 2 ≤ n) (hzero : m.read16 (a + k) = 0) :
    (wordSum ((m.write (a + k) 2 (checksum (m.bytes (a + s) (n - s + e)))).bytes a n) +
        wordSum (m.bytes (a + n) e)) % 65535 = wordSum (m.bytes a s) % 65535 := by
  have hread : (m.read16 (a + k)).toNat = 0 := by rw [hzero]; rfl
  have hwrite := wordSum_write m (a := a) (checksum (m.bytes (a + s) (n - s + e))) hk hkn
  have hadd := (checksum_add (m.bytes (a + s) (n - s + e))).1
  have hfront : wordSum (m.bytes a n) =
      wordSum (m.bytes a s) + wordSum (m.bytes (a + s) (n - s)) := by
    rw [← wordSum_bytes_add m a _ hs, Nat.add_sub_cancel' hsn]
  have hover : wordSum (m.bytes (a + s) (n - s + e)) =
      wordSum (m.bytes (a + s) (n - s)) + wordSum (m.bytes (a + n) e) := by
    rw [wordSum_bytes_add m _ _ (by omega), Nat.add_assoc a, Nat.add_sub_cancel' hsn]
  omega

/-- The IP checksum of a packet with an option is computed from the header offset before. -/
theorem tagged_finish (hk : k.Internet) (h : skb.Tcp) (hroom : 8 ≤ skb.data)
    (hihl13 : skb.ihl ≤ 13) (hdoff13 : skb.doff ≤ 13)
    (hfinish : finish k (rewrite (sentToa slot skb) servers portSky) = some out) :
    ∃ m : Mem, m.read16 (skb.data + 10) = 0 ∧
      (∀ x, x < skb.tcp + 16 → x < skb.data + 10 ∨ skb.data + 12 ≤ x →
        m x = (rewrite (sentToa slot skb) servers portSky).mem x) ∧
      out.data = skb.data - 8 ∧
      ∀ x, x < skb.tcp + 16 → out.mem x =
        m.write (skb.data + 10) 2 (checksum (m.bytes skb.data ((skb.ihl + 2) * 4))) x := by
  have htcp := skb.tcp_eq
  have hsihl := (tunnelled_lengths slot servers h hroom).1
  obtain ⟨hptr, _, hdlen⟩ := tunnelled_span slot servers h hroom hdoff13
  have hnet : (rewrite (sentToa slot skb) servers portSky).networkHeader = skb.data := h.network
  have htrans : (rewrite (sentToa slot skb) servers portSky).transportHeader = skb.tcp :=
    h.transport
  have hdata : (rewrite (sentToa slot skb) servers portSky).data = skb.data - 8 := rfl
  generalize rewrite (sentToa slot skb) servers portSky = sent at *
  have hptr := hptr (by omega)
  obtain ⟨m0, hm0, hout, _⟩ := xorDataSky_spec sent.mem sent.dataPtr hdlen
  have hother : ∀ x, x < skb.tcp + 16 → x < skb.data + 10 ∨ skb.data + 12 ≤ x →
      m0.write (skb.data + 10) 2 (0 : BitVec 16) x = sent.mem x := by
    intro x hx hcheck
    have hdoff := h.doff_ge
    rw [Mem.write_other _ _ (by omega)]
    refine hout x ?_
    rintro j ⟨_, hwin, _⟩
    omega
  have hihl : ipIhl (m0.write (skb.data + 10) 2 (0 : BitVec 16)) skb.data = skb.ihl + 2 := by
    have hfirst : m0.write (skb.data + 10) 2 (0 : BitVec 16) skb.data = sent.mem skb.data :=
      hother _ (by omega) (by omega)
    rw [ipIhl, hfirst]
    change ipIhl sent.mem skb.data = _
    rw [hsihl]
    omega
  have hcsum := hk.header (m0.write (skb.data + 10) 2 (0 : BitVec 16)) skb.data (skb.ihl + 2)
    (by have := h.ihl_ge; omega)
  refine ⟨m0.write (skb.data + 10) 2 (0 : BitVec 16), Mem.read16_write _ _ _, hother, ?_⟩
  simp only [finish_of_xor k hm0, hnet, htrans, hihl, hcsum] at hfinish
  split at hfinish
  · cases hfinish
    exact ⟨hdata, fun x hx => Mem.write_other _ _ (by omega)⟩
  · cases hfinish
    exact ⟨hdata, fun x _ => rfl⟩

theorem tagged_header (hk : k.Internet) (h : skb.Tcp) (hroom : 8 ≤ skb.data)
    (hihl13 : skb.ihl ≤ 13) (hdoff13 : skb.doff ≤ 13)
    (hfinish : finish k (rewrite (sentToa slot skb) servers portSky) = some out)
    (hv : out.Verified) : TagFits slot servers skb := by
  have hihl := h.ihl_ge
  have htcp := skb.tcp_eq
  have hlow := @tunnelled_low slot servers skb h hroom
  obtain ⟨m, hzero, hother, houtdata, hout⟩ := tagged_finish hk h hroom hihl13 hdoff13 hfinish
  have houtihl : out.ihl = skb.ihl := by
    rw [SkBuff.ihl, houtdata, ipIhl, hout _ (by omega), Mem.write_other _ _ (by omega),
      hother _ (by omega) (by omega), hlow (by omega) (by omega) (by omega) (by omega) (by omega),
      Nat.sub_add_cancel hroom]
    rfl
  -- the header begins 8 bytes before what its checksum is over, which has 8 bytes more
  have hstart : skb.data - 8 + 8 = skb.data := by omega
  have hcheck : skb.data - 8 + 18 = skb.data + 10 := by omega
  have hend : skb.data - 8 + skb.ihl * 4 = skb.tcp - 8 := by omega
  have hover : skb.ihl * 4 - 8 + 16 = (skb.ihl + 2) * 4 := by omega
  have hshifted := checksum_shifted m (a := skb.data - 8) (k := 18) (s := 8) (n := skb.ihl * 4) 16
    rfl rfl (by omega) (by omega) (by omega) (by rw [hcheck]; exact hzero)
  rw [hstart, hcheck, hend, hover] at hshifted
  have hheader : out.mem.bytes out.data (out.ihl * 4) =
      (m.write (skb.data + 10) 2 (checksum (m.bytes skb.data ((skb.ihl + 2) * 4)))).bytes
        (skb.data - 8) (skb.ihl * 4) := by
    rw [houtdata, houtihl]
    exact Mem.bytes_congr fun i _ => hout _ (by omega)
  have hfirst : m.bytes (skb.data - 8) 8 = skb.mem.bytes skb.data 8 := by
    refine Mem.bytes_congr fun i hi => ?_
    rw [hother _ (by omega) (by omega),
      hlow (by omega) (by omega) (by omega) (by omega) (by omega)]
    congr 1
    omega
  have hlast : m.bytes (skb.tcp - 8) 16 =
      (rewrite (sentToa slot skb) servers portSky).mem.bytes (skb.tcp - 8) 16 :=
    Mem.bytes_congr fun i _ => hother _ (by omega) (by omega)
  have hip := (verifies_iff _).mp hv.ip
  rw [hheader] at hip
  rw [hfirst, hlast] at hshifted
  rw [TagFits]
  omega

end Tag

/-! ## The hooks -/

/-- The destination the server hook gives a packet, if it takes it. -/
def serverTarget (frame : ServerFrame) (r : Routes) (skb : SkBuff) : Option Endpoint :=
  if isLocalAddr skb.mem (skb.networkHeader + 16) ∨ skb.frags ≠ [] ∧ frame.linearizes = false ∨
      skb.flat.dest ≠ portSky then none
  else if skb.flat.opens then
    some ((getToaDataSky skb.flat frame.buff frame.data).getD frame.data).names
  else
    (findRouteSky r (frame.data.endpoint skb.flat.saddr skb.flat.source)).map fun p =>
      (r.pair p).second.names

/-- The packet goes through the code of the route hook. -/
def RouteTakes (frame : RouteFrame) (skb : SkBuff) : Prop :=
  isLocalAddr skb.mem (skb.networkHeader + 16) = false ∧
    ¬ (skb.frags ≠ [] ∧ frame.linearizes = false)

section Hooks

variable {k : Kernel} {skb : SkBuff}

theorem server_sends (h : skb.TcpPacket) (frame : ServerFrame) (r : Routes) :
    match serverTarget frame r skb with
    | none => ∀ out r', serverPreRoutingSky k frame r skb = some (.accept, out, r') →
        out.flat = skb.flat
    | some e => ∃ r', serverPreRoutingSky k frame r skb =
        (finish k (rewrite skb.flat e.addr e.port)).map fun out => (.accept, out, r') := by
  have hloc := h.flat.toLocated
  simp only [serverTarget, serverPreRoutingSky, h.protocol, hloc.dest_eq, hloc.opens_eq,
    hloc.saddr_eq, hloc.source_eq, if_true]
  by_cases hlocal : isLocalAddr skb.mem (skb.networkHeader + 16) = true
  · rw [if_pos (.inl hlocal)]
    intro out r' hout
    rw [if_pos hlocal] at hout
    cases hout
    rfl
  · by_cases hpaged : skb.frags ≠ [] ∧ frame.linearizes = false
    · rw [if_pos (.inr (.inl hpaged))]
      intro out r' hout
      rw [if_neg hlocal, if_pos hpaged] at hout
      cases hout
    · simp only [if_neg hlocal, if_neg hpaged]
      by_cases hsky : skb.flat.dest = portSky
      · have hno : ¬ (isLocalAddr skb.mem (skb.networkHeader + 16) = true ∨
            skb.frags ≠ [] ∧ frame.linearizes = false ∨ skb.flat.dest ≠ portSky) := by
          rintro (h | h | h)
          · exact hlocal h
          · exact hpaged h
          · exact h hsky
        rw [if_neg hno]
        simp only [if_pos hsky]
        cases hopens : skb.flat.opens with
        | true =>
          exact ⟨_, rfl⟩
        | false =>
          simp only [Bool.false_eq_true, if_false]
          cases findRouteSky r (frame.data.endpoint skb.flat.saddr skb.flat.source) with
          | none =>
            intro out r' hout
            cases hout
            exact skb.flat_flat
          | some p =>
            simp only [Option.map_some]
            split
            · exact ⟨_, rfl⟩
            · exact ⟨_, rfl⟩
      · rw [if_pos (.inr (.inr hsky))]
        intro out r' hout
        rw [if_neg hsky] at hout
        cases hout
        exact skb.flat_flat

/-- Storing the destination a packet has changes nothing. -/
theorem rewrite_target (h : skb.Located) : rewrite skb skb.target.addr skb.target.port = skb := by
  have haddr := (Mem.read32_eq_iff skb.mem (skb.data + 16) skb.daddr).mp rfl
  have hport := (Mem.read16_eq_iff skb.mem (skb.tcp + 2) skb.dest).mp rfl
  have hmem : (rewrite skb skb.target.addr skb.target.port).mem = skb.mem := by
    funext x
    simp only [rewrite, h.network, h.transport, Mem.write_at, SkBuff.target]
    split
    · rename_i hx
      rw [← hport _ (by omega)]
      congr 1
      omega
    · split
      · rename_i hx
        rw [← haddr _ (by omega)]
        congr 1
        omega
      · rfl
  change { skb with mem := (rewrite skb skb.target.addr skb.target.port).mem } = skb
  rw [hmem]

theorem route_left {frame : RouteFrame} {servers : BitVec 32} {out : SkBuff}
    (hproto : ipProtocol skb.mem skb.networkHeader = 6) (hleft : ¬ RouteTakes frame skb)
    (h : routePreRoutingSky k frame servers skb = some (.accept, out)) : out = skb := by
  simp only [routePreRoutingSky, hproto, if_true] at h
  split at h
  · cases h
    rfl
  · rename_i hlocal
    by_cases hpaged : skb.frags ≠ [] ∧ frame.linearizes = false
    · rw [if_pos hpaged] at h
      cases h
    · exact absurd ⟨by simpa using hlocal, hpaged⟩ hleft

/-- Of a packet that is no SYN, the route hook changes the payload. -/
theorem route_plain {frame : RouteFrame} (servers : BitVec 32) (h : skb.TcpPacket)
    (htakes : RouteTakes frame skb) (hopens : skb.flat.opens = false) :
    routePreRoutingSky k frame servers skb =
      (finish k skb.flat).map fun out => (.accept, out) := by
  have hsyn := h.flat.opens_eq.trans hopens
  simp only [routePreRoutingSky, htakes.1, h.protocol, if_neg htakes.2, hsyn, Bool.false_eq_true,
    if_false, if_true]

/-- Of a SYN it does not accept, there is no room for the option in front of the packet. -/
theorem route_cramped {frame : RouteFrame} {servers : BitVec 32} {out : SkBuff} (h : skb.TcpPacket)
    (htakes : RouteTakes frame skb) (hopens : skb.flat.opens = true) (hroom : skb.data < 8) :
    routePreRoutingSky k frame servers skb ≠ some (.accept, out) := by
  intro hout
  have hsent := route_of_tcp h htakes.1 hout
  rw [hopens, if_pos rfl, SkBuff.flat_data] at hsent
  omega

end Hooks

/-- The checksums are correct in a packet the server hook accepts. -/
def ServerKeeps (k : Kernel) (frame : ServerFrame) (r : Routes) (skb : SkBuff) : Prop :=
  ∀ out r', serverPreRoutingSky k frame r skb = some (.accept, out, r') → out.flat.Verified

def ServerSpares (frame : ServerFrame) (r : Routes) (skb : SkBuff) : Prop :=
  ∀ e, serverTarget frame r skb = some e → Spared skb.flat e

/-- The checksums are correct in a packet the route hook accepts. -/
def RouteKeeps (k : Kernel) (frame : RouteFrame) (servers : BitVec 32) (skb : SkBuff) : Prop :=
  ∀ out, routePreRoutingSky k frame servers skb = some (.accept, out) → out.flat.Verified

/-- The packet is a SYN the route hook puts an option into. -/
def RouteTags (frame : RouteFrame) (skb : SkBuff) : Prop :=
  RouteTakes frame skb ∧ skb.flat.opens = true ∧ 8 ≤ skb.data

/-- The packet gets no option, and the payload may change. -/
def RouteSpares (frame : RouteFrame) (skb : SkBuff) : Prop :=
  ¬ RouteTags frame skb ∧
    (RouteTakes frame skb → skb.flat.opens = false → Spared skb.flat skb.flat.target)

section Kept

variable {k : Kernel} {skb : SkBuff}

theorem serverKeeps_iff (hk : k.Internet) (h : skb.Received) (frame : ServerFrame) (r : Routes) :
    ServerKeeps k frame r skb ↔ ServerSpares frame r skb := by
  have htot := h.totLen.trans skb.flat_len.symm
  have hsends := server_sends (k := k) h.packet frame r
  rw [ServerKeeps, ServerSpares]
  cases htarget : serverTarget frame r skb with
  | none =>
    rw [htarget] at hsends
    constructor
    · intro _ e he
      cases he
    · intro _ out r' hout
      rw [hsends out r' hout]
      exact h.verified
  | some e =>
    rw [htarget] at hsends
    obtain ⟨r', hserver⟩ := hsends
    obtain ⟨out, hfinish, hfrags, hiff⟩ := leave_check hk h.packet.flat htot h.verified e
    have hflat := SkBuff.flat_of_linear hfrags
    rw [hfinish] at hserver
    constructor
    · intro hkeeps e' he'
      cases he'
      have hverified := hkeeps out r' hserver
      rw [hflat] at hverified
      exact hiff.mp hverified
    · intro hspares out' r'' hout'
      cases hserver.symm.trans hout'
      rw [hflat]
      exact hiff.mpr (hspares e rfl)

theorem routeKeeps_iff (hk : k.Internet) (h : skb.Received) (frame : RouteFrame)
    (servers : BitVec 32) (htags : ¬ RouteTags frame skb) :
    RouteKeeps k frame servers skb ↔ RouteSpares frame skb := by
  have htot := h.totLen.trans skb.flat_len.symm
  rw [RouteKeeps, RouteSpares]
  by_cases htakes : RouteTakes frame skb
  · cases hopens : skb.flat.opens with
    | true =>
      have hroom : skb.data < 8 := by
        by_cases hroom : 8 ≤ skb.data
        · exact absurd ⟨htakes, hopens, hroom⟩ htags
        · omega
      constructor
      · intro _
        exact ⟨htags, fun _ hno => Bool.noConfusion hno⟩
      · intro _ out hout
        exact absurd hout (route_cramped h.packet htakes hopens hroom)
    | false =>
      have hroute := route_plain (k := k) servers h.packet htakes hopens
      obtain ⟨out, hfinish, hfrags, hiff⟩ :=
        leave_check hk h.packet.flat htot h.verified skb.flat.target
      have hflat := SkBuff.flat_of_linear hfrags
      rw [rewrite_target h.packet.flat.toLocated] at hfinish
      rw [hfinish] at hroute
      constructor
      · intro hkeeps
        have hverified := hkeeps out hroute
        rw [hflat] at hverified
        exact ⟨htags, fun _ _ => hiff.mp hverified⟩
      · intro hspares out' hout'
        cases hroute.symm.trans hout'
        rw [hflat]
        exact hiff.mpr (hspares.2 htakes rfl)
  · constructor
    · intro _
      exact ⟨htags, fun ht => absurd ht htakes⟩
    · intro _ out hout
      rw [route_left h.packet.protocol htakes hout]
      exact h.verified

/-- A SYN with an option leaves the route hook; with correct checksums, the two sums agree. -/
theorem routeTags_fits {frame : RouteFrame} {servers : BitVec 32} (hk : k.Internet)
    (h : skb.TcpPacket) (htags : RouteTags frame skb) (hihl13 : skb.flat.ihl ≤ 13)
    (hdoff13 : skb.flat.doff ≤ 13) (hkeeps : RouteKeeps k frame servers skb) :
    TagFits frame.toaSlot servers skb.flat := by
  obtain ⟨htakes, hopens, hroom⟩ := htags
  have hflatroom : 8 ≤ skb.flat.data := by
    rw [SkBuff.flat_data]
    exact hroom
  have hlt := h.flat.len_lt
  have hsyn := h.flat.opens_eq.trans hopens
  have hset := @setToaDataSky_eq frame.toaSlot skb.flat (frame.toa skb.flat) h.flat rfl
  rw [if_pos hflatroom] at hset
  obtain ⟨out, hfinish⟩ := finish_some k
    (rewrite (sentToa frame.toaSlot skb.flat) servers portSky) (show skb.flat.len + 8 < _ by omega)
  have hroute : routePreRoutingSky k frame servers skb = some (.accept, out) := by
    simp only [RouteFrame.toa] at hset
    simp only [routePreRoutingSky, htakes.1, h.protocol, if_neg htakes.2, hsyn, hset, hfinish,
      Bool.false_eq_true, if_false, if_true, Option.map_some]
  have hlinear : out.frags = [] := (finish_frags hfinish).trans h.flat.linear
  have hflat := SkBuff.flat_of_linear hlinear
  have hverified := hkeeps out hroute
  rw [hflat] at hverified
  exact tagged_header hk h.flat hflatroom hihl13 hdoff13 hfinish hverified

end Kept

/-- The checksums of a packet the server hook accepts are correct if and only if it left the packet
alone, or `ip_summed` is `CHECKSUM_UNNECESSARY` and the old TCP checksum a zero of ones'-complement
arithmetic, or it is `CHECKSUM_NONE` and the destination and the payload together have the sum they
had. The same is true of the route hook for a packet it puts no option into. One that does get an
option needs the two sums of `TagFits` to agree. -/
theorem checks_kept_iff {k : Kernel} (hk : k.Internet) {skb : SkBuff} (h : skb.Received) :
    (∀ frame r, ServerKeeps k frame r skb ↔ ServerSpares frame r skb) ∧
      ∀ frame servers,
        (RouteSpares frame skb → RouteKeeps k frame servers skb) ∧
        (¬ RouteTags frame skb → RouteKeeps k frame servers skb → RouteSpares frame skb) ∧
        (RouteTags frame skb → skb.flat.ihl ≤ 13 → skb.flat.doff ≤ 13 →
          RouteKeeps k frame servers skb → TagFits frame.toaSlot servers skb.flat) := by
  refine ⟨serverKeeps_iff hk h, fun frame servers => ⟨?_, ?_, ?_⟩⟩
  · intro hspares
    exact (routeKeeps_iff hk h frame servers hspares.1).mpr hspares
  · intro htags hkeeps
    exact (routeKeeps_iff hk h frame servers htags).mp hkeeps
  · intro htags hihl13 hdoff13 hkeeps
    exact routeTags_fits hk h.packet htags hihl13 hdoff13 hkeeps

/-- A kernel whose sums are the ones the library defines. -/
def internetKernel : Kernel where
  ipFastCsum m p ihl := checksum (m.bytes p (ihl * 4))
  csumPartial m p n sum := (addc (onesSum (m.bytes p n.toNat)) (fold sum)).setWidth 32
  csumTcpudpMagic saddr daddr n proto sum :=
    ~~~addc (onesSum (pseudoHeader saddr daddr proto n.toNat)) (fold sum)

theorem internetKernel_internet : internetKernel.Internet where
  header _ _ _ _ := rfl
  sum m p n := by
    change fold ((addc (onesSum (m.bytes p n)) (fold 0)).setWidth 32) = _
    rw [fold_setWidth]
    exact addc_zero _
  pseudo _ _ _ _ _ _ := rfl

/-- The first 8 bytes of a request from 10.0.0.10:36000 to 93.184.216.34:443. -/
def requestBytes : List Byte :=
  [0x45, 0x00, 0x00, 0x30, 0x1c, 0x47, 0x40, 0x00, 0x40, 0x06, 0xde, 0x9c,
    0x0a, 0x00, 0x00, 0x0a, 0x5d, 0xb8, 0xd8, 0x22,
    0x8c, 0xa0, 0x01, 0xbb, 0x11, 0x22, 0x33, 0x45, 0x00, 0x00, 0x00, 0x01,
    0x50, 0x10, 0xfa, 0xf0, 0x8f, 0x59, 0x00, 0x00,
    0x47, 0x45, 0x54, 0x20, 0x2f, 0x20, 0x48, 0x54]

/-- The SYN before it. -/
def openingBytes : List Byte :=
  [0x45, 0x00, 0x00, 0x2c, 0x1c, 0x46, 0x40, 0x00, 0x40, 0x06, 0xde, 0xa1,
    0x0a, 0x00, 0x00, 0x0a, 0x5d, 0xb8, 0xd8, 0x22,
    0x8c, 0xa0, 0x01, 0xbb, 0x11, 0x22, 0x33, 0x44, 0x00, 0x00, 0x00, 0x00,
    0x60, 0x02, 0xfa, 0xf0, 0x8a, 0x8f, 0x00, 0x00, 0x02, 0x04, 0x05, 0xb4]

def receivedWith (ipSummed : Nat) (bytes : List Byte) : SkBuff :=
  { SkBuff.receive freshBuffer bytes with ipSummed := ipSummed }

/-- What the card has checked makes no difference to the packet. -/
theorem receivedWith_received {s t : Nat} {bytes : List Byte} (h : (receivedWith s bytes).Received)
    (ht : t = checksumNone ∨ t = checksumUnnecessary) : (receivedWith t bytes).Received where
  packet := by
    obtain ⟨hheader, hflat⟩ := h.packet
    exact ⟨hheader, ⟨⟨hflat.network, hflat.transport⟩, hflat.linear, hflat.protocol_eq,
      hflat.ihl_ge, hflat.doff_ge, hflat.headers_le, hflat.len_lt⟩⟩
  totLen := h.totLen
  verified := ⟨h.verified.1, h.verified.2⟩
  ipSummed := ht

theorem request_received : (receivedWith checksumNone requestBytes).Received where
  packet := SkBuff.receive_tcpPacket (by decide +kernel)
  totLen := by decide +kernel
  verified := ⟨by decide +kernel, by decide +kernel⟩
  ipSummed := .inl rfl

theorem request_received_unnecessary :
    (receivedWith checksumUnnecessary requestBytes).Received :=
  receivedWith_received request_received (.inr rfl)

theorem opening_received : (receivedWith checksumNone openingBytes).Received where
  packet := SkBuff.receive_tcpPacket (by decide +kernel)
  totLen := by decide +kernel
  verified := ⟨by decide +kernel, by decide +kernel⟩
  ipSummed := .inl rfl

/-- The checksums of what the route hook makes of a packet on its way to 10.0.0.1. -/
def routeVerifies (skb : SkBuff) : Option (Verdict × Bool × Bool) :=
  (routePreRoutingSky internetKernel ⟨true, site, pointerSlot⟩ 0x0100000a skb).map fun r =>
    (r.1, decide (Verifies (r.2.flat.mem.bytes r.2.flat.data (r.2.flat.ihl * 4))),
      decide (Verifies r.2.flat.summed))

/-- Received with correct checksums, it is sent on with a wrong one. -/
def LeavesStale (skb : SkBuff) : Prop :=
  skb.Received ∧ ¬ RouteKeeps internetKernel ⟨true, site, pointerSlot⟩ 0x0100000a skb

theorem leavesStale {skb : SkBuff} {ip tcp : Bool} (hreceived : skb.Received)
    (h : routeVerifies skb = some (.accept, ip, tcp)) (hwrong : (ip && tcp) = false) :
    LeavesStale skb := by
  refine ⟨hreceived, fun hkeeps => ?_⟩
  obtain ⟨⟨v, out⟩, hout, heq⟩ := Option.map_eq_some_iff.mp h
  cases heq
  obtain ⟨hip, htcp⟩ := hkeeps out hout
  rw [decide_eq_true hip, decide_eq_true htcp] at hwrong
  cases hwrong

theorem checks_kept_request :
    let skb := receivedWith checksumNone requestBytes
    (∀ frame r, ServerKeeps internetKernel frame r skb ↔ ServerSpares frame r skb) ∧
      ∀ frame servers,
        (RouteSpares frame skb → RouteKeeps internetKernel frame servers skb) ∧
        (¬ RouteTags frame skb → RouteKeeps internetKernel frame servers skb →
          RouteSpares frame skb) ∧
        (RouteTags frame skb → skb.flat.ihl ≤ 13 → skb.flat.doff ≤ 13 →
          RouteKeeps internetKernel frame servers skb →
            TagFits frame.toaSlot servers skb.flat) :=
  checks_kept_iff internetKernel_internet request_received

/-- Whatever `ip_summed` is, a request goes out with a wrong TCP checksum, and a SYN with a wrong
checksum in its IP header too. -/
theorem stale_checksums :
    LeavesStale (receivedWith checksumNone requestBytes) ∧
      LeavesStale (receivedWith checksumUnnecessary requestBytes) ∧
      LeavesStale (receivedWith checksumNone openingBytes) := by
  have hnone : routeVerifies (receivedWith checksumNone requestBytes) =
      some (.accept, true, false) := by decide +kernel
  have hunnecessary : routeVerifies (receivedWith checksumUnnecessary requestBytes) =
      some (.accept, true, false) := by decide +kernel
  have hsyn : routeVerifies (receivedWith checksumNone openingBytes) =
      some (.accept, false, false) := by decide +kernel
  exact ⟨leavesStale request_received hnone rfl,
    leavesStale request_received_unnecessary hunnecessary rfl,
    leavesStale opening_received hsyn rfl⟩

end Sky
end Xsky
