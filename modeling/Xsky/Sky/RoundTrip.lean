import Xsky.Sky.Toa

/-!
# Sky.RoundTrip

What `get_toa_data_sky` finds in a packet `set_toa_data_sky` has been at.

The header lengths are written through offsets that are no longer those of the headers, so the
packet that arrives has the old `doff`, and `get_toa_data_sky` looks 20 bytes behind the start of
the packet, not of its TCP header. It therefore walks over the start of `sentText`: IP options, TCP
header and what follows, for as many bytes as there were of TCP options. `roundTrips_iff` says when
it finds the endpoint there.
-/

namespace Xsky
namespace Sky

open Kit

/-- The bytes of a `sky_v4_data` -/
def SkyData.v4Bytes (d : SkyData) : List Byte := d.bytes.take 8

/-- What follows the first 20 bytes of the packet sent: IP options and TCP header, the 8 bytes
copied from the variable `toa` with the new `doff` stored in the first of them, and the rest. -/
def sentText (slot : Mem) (skb : SkBuff) : Mem := fun i =>
  if i < skb.ihl * 4 then skb.mem (skb.data + 20 + i)
  else if i = skb.ihl * 4 then
    BitVec.ofNat 8 ((slot 0).toNat % 16 + (skb.doff + 2) % 16 * 16)
  else if i < skb.ihl * 4 + 8 then slot (i - skb.ihl * 4)
  else skb.mem (skb.data + 12 + i)

/-- The endpoint put into the packet is what the receiver of the packet gets out of it. -/
def RoundTrips (slot : Mem) (skb : SkBuff) (toa : SkyData) (buf : SkBuff) (buff : Mem)
    (pdata : SkyData) : Prop :=
  ∃ out, setToaDataSky slot skb toa = some out ∧
    ∃ d, getToaDataSky (SkBuff.receive buf out.packet) buff pdata = some d ∧ sameKey d toa = true

/-- The first `doff * 4 - 20` bytes of the text are options to step over, and then the endpoint. -/
def TextHolds (slot : Mem) (skb : SkBuff) (toa : SkyData) : Prop :=
  ∃ items : List Tlv.Item, (∀ i ∈ items, i.Passed skyOptions) ∧
    Tlv.encode skyOptions items ++ toa.v4Bytes <+:
      (sentText slot skb).bytes 0 (skb.doff * 4 - 20)

theorem v4Bytes_eq (d : SkyData) : d.v4Bytes =
    [d.code, d.size, Mem.byteOf d.port 0, Mem.byteOf d.port 1, Mem.byteOf d.addr 0,
      Mem.byteOf d.addr 1, Mem.byteOf d.addr 2, Mem.byteOf d.addr 3] := rfl

theorem sameKey_copyV4_iff (d toa : SkyData) (m : Mem) (a : Nat) :
    sameKey (d.copyV4 m a) toa = true ↔ m.bytes a 8 = toa.v4Bytes := by
  have hbytes : m.bytes a 8 = [m a, m (a + 1), m (a + 2), m (a + 3), m (a + 4), m (a + 5),
      m (a + 6), m (a + 7)] := rfl
  rw [sameKey_iff, hbytes, v4Bytes_eq]
  simp only [SkyData.copyV4, Mem.read16_eq_iff, Mem.read32_eq_iff, List.cons.injEq, and_true]
  constructor
  · rintro ⟨hcode, hsize, haddr, hport⟩
    exact ⟨hcode, hsize, hport 0 (by omega), hport 1 (by omega), haddr 0 (by omega),
      haddr 1 (by omega), haddr 2 (by omega), haddr 3 (by omega)⟩
  · rintro ⟨hcode, hsize, hp0, hp1, ha0, ha1, ha2, ha3⟩
    refine ⟨hcode, hsize, fun i hi => ?_, fun i hi => ?_⟩
    · obtain rfl | rfl | rfl | rfl : i = 0 ∨ i = 1 ∨ i = 2 ∨ i = 3 := by omega
      · exact ha0
      · exact ha1
      · exact ha2
      · exact ha3
    · obtain rfl | rfl : i = 0 ∨ i = 1 := by omega
      · exact hp0
      · exact hp1

/-- The loop ends at an option that is `toa` exactly when the bytes it walks over are options it
steps over, followed by `toa`. -/
theorem walkToa_iff {ptr : Mem} {length : Nat} {toa : SkyData} (pdata : SkyData)
    (hcode : toa.code = tcpoptV4Sky) (hsize : toa.size = 8) :
    (∃ d, walkToa ptr length pdata = some d ∧ sameKey d toa = true) ↔
      ∃ items : List Tlv.Item, (∀ i ∈ items, i.Passed skyOptions) ∧
        Tlv.encode skyOptions items ++ toa.v4Bytes <+: ptr.bytes 0 length := by
  constructor
  · rintro ⟨d, hd, hkey⟩
    simp only [walkToa] at hd
    split at hd
    · cases hd
    · rename_i p hfind
      obtain ⟨items, hitems, hp, hbytes, hle, hstop⟩ :=
        (Tlv.find_eq_some_iff (Nat.le_refl _)).mp hfind
      rw [Nat.zero_add] at hp
      have hv4 : ptr p = tcpoptV4Sky := by
        split at hd
        · assumption
        · cases hd
          exact (sameKey_iff.mp hkey).1.trans hcode
      rw [if_pos hv4] at hd
      cases hd
      have htoa := (sameKey_copyV4_iff pdata toa ptr p).mp hkey
      have hfits : (ptr (p + 1)).toNat = 8 := by
        have h := (sameKey_iff.mp hkey).2.1
        simp only [SkyData.copyV4, hsize] at h
        rw [h]
        rfl
      have hsize_le := hstop.size_le
      refine ⟨items, hitems, ?_⟩
      subst hp
      have hpre := Mem.bytes_append ptr 0 ((Tlv.encode skyOptions items).length + 8)
        (length - ((Tlv.encode skyOptions items).length + 8))
      rw [← Mem.bytes_append, hbytes, Nat.zero_add, htoa,
        show (Tlv.encode skyOptions items).length + 8 +
          (length - ((Tlv.encode skyOptions items).length + 8)) = length by omega] at hpre
      exact ⟨_, hpre⟩
  · rintro ⟨items, hitems, rest, hrest⟩
    have hlen := congrArg List.length hrest
    simp only [List.length_append, v4Bytes_eq, List.length_cons, List.length_nil,
      Mem.bytes_length] at hlen
    have hsplit := hrest
    rw [show length = (Tlv.encode skyOptions items).length + (8 + rest.length) by omega,
      ← Mem.bytes_append, ← Mem.bytes_append, List.append_assoc, Nat.zero_add] at hsplit
    obtain ⟨hbytes, htail⟩ := List.append_inj hsplit.symm (by simp)
    obtain ⟨htoa, _⟩ := List.append_inj htail (by simp [v4Bytes_eq])
    have hkey := (sameKey_copyV4_iff pdata toa ptr _).mpr htoa
    obtain ⟨hc, hs, _⟩ := sameKey_iff.mp hkey
    have hkind : ptr (Tlv.encode skyOptions items).length = tcpoptV4Sky := hc.trans hcode
    have hfits : (ptr ((Tlv.encode skyOptions items).length + 1)).toNat = 8 := by
      have h : ptr ((Tlv.encode skyOptions items).length + 1) = 8 := hs.trans hsize
      rw [h]
      rfl
    have hfind : Tlv.find skyOptions ptr length 0 length =
        some (Tlv.encode skyOptions items).length := by
      rw [Tlv.find_eq_some_iff (Nat.le_refl _)]
      refine ⟨items, hitems, (Nat.zero_add _).symm, hbytes, by omega, ?_, ?_, ?_, ?_, ?_⟩
      · rw [hkind]; decide
      · rw [hkind]; decide
      · omega
      · omega
      · rw [hkind, hfits]; rfl
    exact ⟨_, by simp only [walkToa, hfind, if_pos hkind], hkey⟩

section Sent

variable {slot : Mem} {skb : SkBuff}

theorem sentToa_mem (h : 8 ≤ skb.data) (i : Nat) :
    (sentToa slot skb).mem ((sentToa slot skb).data + 20 + i) = sentText slot skb i := by
  simp only [sentToa, withToa, sentText]
  have hnibble : (skb.doff * 4 + 8) / 4 = skb.doff + 2 := by omega
  rw [hnibble, if_neg (by omega)]
  by_cases hopt : i = skb.ihl * 4
  · rw [if_pos (by omega), if_neg (by omega), if_pos hopt]
  · rw [if_neg (by omega)]
    by_cases hlow : i < skb.ihl * 4
    · rw [if_pos (by omega), if_pos hlow]
      congr 1
      omega
    · rw [if_neg (by omega), if_neg hlow, if_neg hopt]
      by_cases hslot : i < skb.ihl * 4 + 8
      · rw [if_pos (by omega), if_pos hslot]
        congr 1
        omega
      · rw [if_neg (by omega), if_neg hslot]
        congr 1
        omega

variable (slot) in
/-- The receiver walks over the text sent. -/
theorem getToaDataSky_sent (htcp : skb.Tcp) (h : 8 ≤ skb.data) (buf : SkBuff) (buff : Mem)
    (pdata : SkyData) :
    ∃ ptr : Mem, ptr.bytes 0 (skb.doff * 4 - 20) =
        (sentText slot skb).bytes 0 (skb.doff * 4 - 20) ∧
      getToaDataSky (SkBuff.receive buf (sentToa slot skb).packet) buff pdata =
        walkToa ptr (skb.doff * 4 - 20) pdata := by
  have hlin : (sentToa slot skb).frags = [] := htcp.linear
  have hlen : (sentToa slot skb).len = skb.len + 8 := rfl
  have hihl := htcp.ihl_ge
  have hdoff := htcp.doff_ge
  have hle := htcp.headers_le
  have hrdoff : (SkBuff.receive buf (sentToa slot skb).packet).doff = skb.doff := by
    rw [SkBuff.receive_doff buf hlin (by rw [sentToa_ihl h, hlen]; omega), sentToa_doff h hihl]
  have hrlen := SkBuff.receive_len buf hlin
  rw [hlen] at hrlen
  have hwalk := getToaDataSky_linear (SkBuff.receive_located buf (sentToa slot skb).packet) rfl
    (by omega) (by omega) buff pdata
  rw [hrdoff] at hwalk
  refine ⟨_, Mem.bytes_congr fun i hi => ?_, hwalk⟩
  rw [Nat.zero_add, ← sentToa_mem h, Nat.add_assoc (sentToa slot skb).data,
    ← SkBuff.receive_mem buf hlin (by omega), ← Nat.add_assoc]
  rfl

end Sent

/-- The receiver gets the endpoint back exactly when there was headroom for the option and the text
it walks over happens to hold the endpoint. -/
theorem roundTrips_iff (slot : Mem) {skb : SkBuff} {toa : SkyData} (buf : SkBuff) (buff : Mem)
    (pdata : SkyData) (htcp : skb.Tcp) (hcode : toa.code = tcpoptV4Sky) (hsize : toa.size = 8) :
    RoundTrips slot skb toa buf buff pdata ↔ 8 ≤ skb.data ∧ TextHolds slot skb toa := by
  rw [RoundTrips, setToaDataSky_eq slot htcp hcode]
  by_cases hroom : 8 ≤ skb.data
  · obtain ⟨ptr, htext, hget⟩ := getToaDataSky_sent slot htcp hroom buf buff pdata
    rw [if_pos hroom, TextHolds, ← htext, ← walkToa_iff pdata hcode hsize, ← hget]
    simp only [hroom, true_and]
    constructor
    · rintro ⟨out, hout, hd⟩
      cases hout
      exact hd
    · exact fun hd => ⟨_, rfl, hd⟩
  · rw [if_neg hroom]
    constructor
    · rintro ⟨out, hout, _⟩
      cases hout
    · exact fun h => absurd h.1 hroom

/-! ## A SYN -/

/-- A buffer with 64 bytes of headroom. -/
def freshBuffer : SkBuff := ⟨fun _ => 0, 64, 0, [], 0, 0, 0, 0⟩

/-- From 10.0.0.10:36000 to 93.184.216.34:443, with a maximum segment size of 1460. -/
def synBytes : List Byte :=
  [0x45, 0x00, 0x00, 0x2c, 0x1c, 0x46, 0x40, 0x00, 0x40, 0x06, 0xde, 0xa1,
    0x0a, 0x00, 0x00, 0x0a, 0x5d, 0xb8, 0xd8, 0x22,
    0x8c, 0xa0, 0x01, 0xbb, 0x11, 0x22, 0x33, 0x44, 0x00, 0x00, 0x00, 0x00,
    0x60, 0x02, 0xfa, 0xf0, 0x00, 0x00, 0x00, 0x00, 0x02, 0x04, 0x05, 0xb4]

def synPacket : SkBuff := .receive freshBuffer synBytes

/-- 93.184.216.34:443 -/
def site : SkyData := ⟨253, 8, 0xbb01, 0x22d8b85d, 0⟩

/-- The variable `toa`, a pointer into the kernel's stack. -/
def pointerSlot : Mem := fun i => [0x08, 0x3d, 0x00, 0x00, 0x00, 0xc9, 0xff, 0xff].getD i 0

theorem synPacket_tcp : synPacket.TcpPacket := SkBuff.receive_tcpPacket (by decide +kernel)

theorem roundTrips_iff_syn :
    RoundTrips pointerSlot synPacket site freshBuffer (fun _ => 0) site ↔
      8 ≤ synPacket.data ∧ TextHolds pointerSlot synPacket site :=
  roundTrips_iff pointerSlot freshBuffer (fun _ => 0) site synPacket_tcp.flat rfl rfl

/-- The endpoint put into a SYN is not found by its receiver, who takes the source port for an
option. -/
theorem syn_not_roundTrips :
    ¬ RoundTrips pointerSlot synPacket site freshBuffer (fun _ => 0) site := by
  rintro ⟨out, hout, d, hd, _⟩
  have hnone : (setToaDataSky pointerSlot synPacket site).bind (fun out =>
      getToaDataSky (.receive freshBuffer out.packet) (fun _ => 0) site) = none := by
    decide +kernel
  rw [hout, Option.bind_some, hd] at hnone
  cases hnone

end Sky
end Xsky
