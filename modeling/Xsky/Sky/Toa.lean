import Xsky.Kit.Tlv
import Xsky.Sky.Route
import Xsky.Sky.Skb

/-!
# Sky.Toa

The TCP option that carries an endpoint, as `set_toa_data_sky` writes it and `get_toa_data_sky`
looks for it.

`set_toa_data_sky` makes room with `skb_push`, which leaves the stored header offsets alone, copies
the bytes of its own pointer argument for the option, and writes the new header lengths through the
old offsets. `setToaDataSky_eq` says what every byte of the packet is afterwards.
-/

namespace Xsky
namespace Sky

open Kit

/-- `TCPOPT_V4_SKY` -/
def tcpoptV4Sky : Byte := 253

/-- `TCPOLEN_V4_SKY` -/
def tcpolenV4Sky : Nat := 8

/-- `TCPOPT_V6_SKY` -/
def tcpoptV6Sky : Byte := 254

/-- `TCPOLEN_V6_SKY` -/
def tcpolenV6Sky : Nat := 20

/-- `sizeof( struct tcphdr )` -/
def tcphdrSize : Nat := 20

/-- A word in the 12 bytes at `a`. -/
def read96 (m : Mem) (a : Nat) : BitVec 96 :=
  BitVec.ofNat 96 ((List.range 12).foldr (fun i v => (m (a + i)).toNat + 2 ^ 8 * v) 0)

/-- `memcpy` of a `sky_v4_data` to a `sky_data` -/
def SkyData.copyV4 (d : SkyData) (m : Mem) (a : Nat) : SkyData :=
  { d with code := m a, size := m (a + 1), port := m.read16 (a + 2), addr := m.read32 (a + 4) }

/-- `memcpy` of a `sky_v6_data` to a `sky_data`: the whole union -/
def SkyData.copyV6 (d : SkyData) (m : Mem) (a : Nat) : SkyData :=
  { d.copyV4 m a with rest := read96 m (a + 8) }

/-- The options `get_toa_data_sky` looks for, among those it steps over. -/
def skyOptions : Tlv.Grammar where
  eol := 0
  nop := 1
  stop kind size :=
    kind = tcpoptV4Sky && size = tcpolenV4Sky || kind = tcpoptV6Sky && size = tcpolenV6Sky

/-- `skb->len - ip_h->ihl * 4 - tcp_h->doff * 4` in an `int`, for headers at the stored offsets. -/
def SkBuff.dataLen (skb : SkBuff) : Int :=
  Int.bmod (skb.len - ipIhl skb.mem skb.networkHeader * 4 -
    tcpDoff skb.mem skb.transportHeader * 4) (2 ^ 32)

/-- `skb->data + ip_h->ihl * 4 + tcp_h->doff * 4`, likewise -/
def SkBuff.dataPtr (skb : SkBuff) : Nat :=
  skb.data + ipIhl skb.mem skb.networkHeader * 4 + tcpDoff skb.mem skb.transportHeader * 4

/-- Stores a bit field in the low half of a byte. -/
def setLow (m : Mem) (a v : Nat) : Mem :=
  m.set a (BitVec.ofNat 8 ((m a).toNat / 16 * 16 + v % 16))

/-- Stores a bit field in the high half of a byte. -/
def setHigh (m : Mem) (a v : Nat) : Mem :=
  m.set a (BitVec.ofNat 8 ((m a).toNat % 16 + v % 16 * 16))

/-- `slot` is the memory from the variable `toa` on, which holds a pointer. `none` when the kernel
panics: no headroom, or a negative length given to `memcpy`. -/
def setToaDataSky (slot : Mem) (skb : SkBuff) (toa : SkyData) : Option SkBuff :=
  let iheadLen := ipIhl skb.mem skb.networkHeader * 4
  let theadLen := tcpDoff skb.mem skb.transportHeader * 4
  let optLen : Int := theadLen - tcphdrSize
  let dataLen := skb.dataLen
  let len := if toa.code = tcpoptV4Sky then tcpolenV4Sky else tcpolenV6Sky
  match skb.push len with
  | none => none
  | some skb =>
    if optLen < 0 ∨ dataLen < 0 then none
    else
      let data := skb.data
      let ptr := data + len
      let m := skb.mem.memcpy data ptr iheadLen
      let data := data + iheadLen
      let ptr := ptr + iheadLen
      let m := m.memcpy data ptr tcphdrSize
      let data := data + tcphdrSize
      let ptr := ptr + tcphdrSize
      let m := m.fill data len slot
      let data := data + len
      let m := m.memcpy data ptr optLen.toNat
      let data := data + optLen.toNat
      let ptr := ptr + optLen.toNat
      let m := m.memcpy data ptr dataLen.toNat
      let m := setLow m skb.networkHeader ((iheadLen + len) / 4)
      let m := setHigh m (skb.transportHeader + 12) ((theadLen + len) / 4)
      some { skb with mem := m }

/-- The loop of `get_toa_data_sky` over the `length` bytes at `ptr`. -/
def walkToa (ptr : Mem) (length : Nat) (pdata : SkyData) : Option SkyData :=
  match Tlv.find skyOptions ptr length 0 length with
  | none => none
  | some p =>
    if ptr p = tcpoptV4Sky then some (pdata.copyV4 ptr p) else some (pdata.copyV6 ptr p)

/-- `buff` is the local array the options are copied to when they are not in linear memory; `none`
when the source returns `NULL`. -/
def getToaDataSky (skb : SkBuff) (buff : Mem) (pdata : SkyData) : Option SkyData :=
  let length := tcpDoff skb.mem skb.transportHeader * 4 - tcphdrSize
  (skb.headerPointer tcphdrSize length buff).bind fun ptr => walkToa ptr length pdata

/-! ## What is written -/

theorem memcpy_self (m : Mem) (a n : Nat) : m.memcpy a a n = m := by
  funext x
  rw [Mem.memcpy_down m (Nat.le_refl a)]
  split
  · congr 1
    omega
  · rfl

theorem setLow_at (m : Mem) (a v x : Nat) :
    setLow m a v x = if x = a then BitVec.ofNat 8 ((m a).toNat / 16 * 16 + v % 16) else m x := rfl

theorem setHigh_at (m : Mem) (a v x : Nat) :
    setHigh m a v x = if x = a then BitVec.ofNat 8 ((m a).toNat % 16 + v % 16 * 16) else m x := rfl

theorem SkBuff.Tcp.dataLen {skb : SkBuff} (h : skb.Tcp) : skb.dataLen = skb.payloadLen := by
  have hle := h.headers_le
  have hlt := h.len_lt
  rw [SkBuff.dataLen, h.network, h.transport]
  simp only [payloadLen]
  change Int.bmod (skb.len - skb.ihl * 4 - skb.doff * 4) (2 ^ 32) = _
  rw [Int.bmod_eq_of_le (by omega) (by omega)]
  omega

/-- The headers moved down by 8 bytes, and the option copied in behind the TCP header. -/
theorem moved_at (m slot : Mem) (a n x : Nat) :
    ((m.memcpy a (a + 8) n).memcpy (a + n) (a + 8 + n) 20).fill (a + n + 20) 8 slot x =
      if a ≤ x ∧ x < a + n + 20 then m (x + 8)
      else if a + n + 20 ≤ x ∧ x < a + n + 28 then slot (x - (a + n + 20))
      else m x := by
  rw [Mem.fill_at]
  by_cases hslot : a + n + 20 ≤ x ∧ x < a + n + 20 + 8
  · rw [if_pos hslot, if_neg (by omega), if_pos (by omega)]
  · rw [if_neg hslot, Mem.memcpy_down _ (by omega)]
    by_cases htcp : a + n ≤ x ∧ x < a + n + 20
    · rw [if_pos htcp, Mem.memcpy_down _ (by omega), if_neg (by omega), if_pos (by omega)]
      congr 1
      omega
    · rw [if_neg htcp, Mem.memcpy_down _ (by omega)]
      by_cases hip : a ≤ x ∧ x < a + n
      · rw [if_pos hip, if_pos (by omega)]
        congr 1
        omega
      · rw [if_neg hip, if_neg (by omega), if_neg (by omega)]

/-- The memory of a packet with the option in: `a` is where it starts, the old headers having been
of `n` and `t` bytes. -/
def withToa (m slot : Mem) (a n t : Nat) : Mem := fun x =>
  if x = a + 8 then BitVec.ofNat 8 ((m (a + 16)).toNat / 16 * 16 + (n + 8) / 4 % 16)
  else if x = a + n + 20 then BitVec.ofNat 8 ((slot 0).toNat % 16 + (t + 8) / 4 % 16 * 16)
  else if a ≤ x ∧ x < a + n + 20 then m (x + 8)
  else if a + n + 20 ≤ x ∧ x < a + n + 28 then slot (x - (a + n + 20))
  else m x

/-- The packet sent, in the buffer it was made in. -/
def sentToa (slot : Mem) (skb : SkBuff) : SkBuff :=
  { skb with
    data := skb.data - 8
    len := skb.len + 8
    mem := withToa skb.mem slot (skb.data - 8) (skb.ihl * 4) (skb.doff * 4) }

theorem setToaDataSky_eq (slot : Mem) {skb : SkBuff} {toa : SkyData} (h : skb.Tcp)
    (hcode : toa.code = tcpoptV4Sky) :
    setToaDataSky slot skb toa = if 8 ≤ skb.data then some (sentToa slot skb) else none := by
  have hihl := h.ihl_ge
  have hdoff := h.doff_ge
  have hnet := h.network
  have htrans := h.transport
  simp only [setToaDataSky, hcode, if_true, tcpolenV4Sky, SkBuff.push]
  by_cases hroom : 8 ≤ skb.data
  · have hn : ipIhl skb.mem skb.networkHeader * 4 = skb.ihl * 4 := by rw [hnet]; rfl
    have ht : tcpDoff skb.mem skb.transportHeader * 4 = skb.doff * 4 := by rw [htrans]; rfl
    have hopt : ¬ (((skb.doff * 4 : Nat) : Int) - (tcphdrSize : Nat) < 0 ∨ skb.dataLen < 0) := by
      rw [h.dataLen, tcphdrSize]
      omega
    simp only [if_pos hroom, hn, ht]
    rw [if_neg hopt]
    have hptr : skb.data - 8 + 8 + skb.ihl * 4 + 20 = skb.data - 8 + skb.ihl * 4 + 20 + 8 := by
      omega
    simp only [tcphdrSize, hptr, memcpy_self, sentToa]
    congr 2
    have hmoved := moved_at skb.mem slot (skb.data - 8) (skb.ihl * 4)
    revert hmoved
    generalize Mem.fill _ _ _ _ = moved
    intro hmoved
    have hslot : moved (skb.data - 8 + skb.ihl * 4 + 20) = slot 0 := by
      rw [hmoved, if_neg (by omega), if_pos (by omega), Nat.sub_self]
    have httl : moved skb.data = skb.mem (skb.data - 8 + 16) := by
      rw [hmoved, if_pos (by omega)]
      congr 1
      omega
    have htcp : skb.tcp + 12 = skb.data - 8 + skb.ihl * 4 + 20 := by rw [SkBuff.tcp]; omega
    funext x
    rw [setHigh_at, setLow_at, setLow_at, hnet, htrans, htcp, hslot, httl, withToa]
    by_cases hx : x = skb.data - 8 + skb.ihl * 4 + 20
    · have hne : ¬ skb.data - 8 + skb.ihl * 4 + 20 = skb.data := by omega
      have hne8 : ¬ x = skb.data - 8 + 8 := by omega
      rw [if_pos hx, if_neg hne, if_neg hne8, if_pos hx]
    · rw [if_neg hx, if_neg hx]
      by_cases hx8 : x = skb.data
      · have h8 : x = skb.data - 8 + 8 := by omega
        rw [if_pos hx8, if_pos h8]
      · have h8 : ¬ x = skb.data - 8 + 8 := by omega
        rw [if_neg hx8, if_neg h8, hmoved]
  · rw [if_neg hroom, if_neg hroom]

/-! ## The headers of the packet sent -/

section Sent

variable {slot : Mem} {skb : SkBuff}

theorem sentToa_ihl (h : 8 ≤ skb.data) : (sentToa slot skb).ihl = skb.ihl := by
  simp only [SkBuff.ihl, ipIhl, sentToa, withToa]
  rw [if_neg (by omega), if_neg (by omega), if_pos (by omega)]
  congr 3
  omega

theorem sentToa_doff (h : 8 ≤ skb.data) (hihl : 5 ≤ skb.ihl) :
    (sentToa slot skb).doff = skb.doff := by
  rw [SkBuff.doff, SkBuff.tcp, sentToa_ihl h]
  simp only [tcpDoff, sentToa, withToa]
  rw [if_neg (by omega), if_neg (by omega), if_pos (by omega)]
  simp only [SkBuff.doff, SkBuff.tcp, tcpDoff]
  congr 3
  omega

end Sent

/-- On a packet in linear memory `get_toa_data_sky` walks over what follows its first 20 bytes. -/
theorem getToaDataSky_linear {skb : SkBuff} (hloc : skb.Located) (hlin : skb.frags = [])
    (hdoff : 5 ≤ skb.doff) (hle : skb.doff * 4 ≤ skb.len) (buff : Mem) (pdata : SkyData) :
    getToaDataSky skb buff pdata =
      walkToa (fun i => skb.mem (skb.data + 20 + i)) (skb.doff * 4 - 20) pdata := by
  have hlen : tcpDoff skb.mem skb.transportHeader * 4 - tcphdrSize = skb.doff * 4 - 20 := by
    rw [hloc.transport, tcphdrSize, SkBuff.doff]
  have hroom : tcphdrSize + (skb.doff * 4 - 20) ≤ skb.headlen := by
    rw [SkBuff.headlen_of_linear hlin, tcphdrSize]
    omega
  have hptr : skb.headerPointer tcphdrSize (skb.doff * 4 - 20) buff =
      some fun i => skb.mem (skb.data + 20 + i) := by
    rw [SkBuff.headerPointer, if_pos hroom, tcphdrSize]
  simp only [getToaDataSky, hlen, hptr, Option.bind_some]

end Sky
end Xsky
