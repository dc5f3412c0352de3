import Xsky.Sky.RoundTrip

/-!
# Sky.Options

The TCP option that carries an endpoint: the one `get_toa_data_sky` takes from an option area, and
what `set_toa_data_sky` should make of a packet.

* `parses_iff`       — the walk finds the first such option of the area, and nothing when a bad
  option or the end of the list comes before it. The bytes behind the area do not matter.
* `never_well_formed` — the packet with the option in is never the packet it should be. The total
  length in the IP header stays as it was, for one.
-/

namespace Xsky
namespace Sky

open Kit

/-! ## The bytes of a variable -/

/-- Byte `i` of the number that these bytes are in memory, the least significant first. -/
theorem foldr_byte (m : Nat → Byte) (k : Nat) (is : List Nat) (i : Nat) (h : is[i]? = some k) :
    is.foldr (fun i v => (m i).toNat + 2 ^ 8 * v) 0 / 2 ^ (8 * i) % 2 ^ 8 = (m k).toNat := by
  induction is generalizing i with
  | nil => cases h
  | cons j is ih =>
    have hj := (m j).isLt
    rw [List.foldr_cons]
    cases i with
    | zero =>
      cases h
      rw [Nat.mul_zero, Nat.pow_zero, Nat.div_one, Nat.add_mul_mod_self_left,
        Nat.mod_eq_of_lt (by omega)]
    | succ i =>
      rw [Nat.mul_succ, Nat.pow_add, Nat.mul_comm (2 ^ (8 * i)), ← Nat.div_div_eq_div_mul,
        Nat.add_mul_div_left _ _ (by omega), Nat.div_eq_of_lt hj, Nat.zero_add]
      exact ih i h

theorem byteOf_read96 (m : Mem) (a : Nat) {i : Nat} (hi : i < 12) :
    Mem.byteOf (read96 m a) i = m (a + i) := by
  apply BitVec.eq_of_toNat_eq
  have hbyte := foldr_byte (fun i => m (a + i)) i (List.range 12) i
    (by rw [List.getElem?_range hi])
  have hpow : (2 : Nat) ^ 96 = 2 ^ (8 * i) * 2 ^ (8 * (12 - i)) := by
    rw [← Nat.pow_add]
    congr 1
    omega
  have hpow8 : (2 : Nat) ^ (8 * (12 - i)) = 2 ^ 8 * 2 ^ (8 * (11 - i)) := by
    rw [← Nat.pow_add]
    congr 1
    omega
  rw [Mem.byteOf_toNat, read96, BitVec.toNat_ofNat, hpow, Nat.mod_mul_right_div_self, hpow8,
    Nat.mod_mul_right_mod]
  exact hbyte

theorem bytes_eq (d : SkyData) :
    d.bytes = d.v4Bytes ++ (List.range 12).map (Mem.byteOf d.rest) := rfl

/-- The first 8 bytes, after a copy of as many. -/
theorem copyV4_v4Bytes (d : SkyData) (m : Mem) (a : Nat) :
    (d.copyV4 m a).v4Bytes = m.bytes a 8 := by
  have hsame : sameKey (d.copyV4 m a) (d.copyV4 m a) = true :=
    sameKey_iff.mpr ⟨rfl, rfl, rfl, rfl⟩
  rw [(sameKey_copyV4_iff d (d.copyV4 m a) m a).mp hsame]

theorem copyV4_bytes (d : SkyData) (m : Mem) (a : Nat) :
    (d.copyV4 m a).bytes = m.bytes a 8 ++ d.bytes.drop 8 := by
  have hdrop : d.bytes.drop 8 = (List.range 12).map (Mem.byteOf d.rest) := by
    rw [bytes_eq, List.drop_left' (by rfl)]
  rw [bytes_eq, copyV4_v4Bytes, hdrop]
  rfl

theorem copyV6_bytes (d : SkyData) (m : Mem) (a : Nat) :
    (d.copyV6 m a).bytes = m.bytes a 20 ++ d.bytes.drop 20 := by
  have hv4 : (d.copyV6 m a).v4Bytes = m.bytes a 8 := by
    rw [← copyV4_v4Bytes d, v4Bytes_eq, v4Bytes_eq]
    simp only [SkyData.copyV6]
  have hrest : (List.range 12).map (Mem.byteOf (read96 m (a + 8))) = m.bytes (a + 8) 12 := by
    refine List.map_congr_left fun i hi => ?_
    exact byteOf_read96 m (a + 8) (List.mem_range.mp hi)
  have hdrop : d.bytes.drop 20 = [] := List.drop_eq_nil_of_le (by simp [SkyData.bytes])
  rw [bytes_eq, hv4, hdrop, List.append_nil, ← Mem.bytes_append m a 8 12, ← hrest]
  rfl

/-- The bytes of a variable are all there is to it. -/
theorem bytes_inj {d d' : SkyData} (h : d.bytes = d'.bytes) : d = d' := by
  have hword : ∀ {w : Nat} (v v' : BitVec w), (∀ i, 8 * i < w → Mem.byteOf v i = Mem.byteOf v' i) →
      v = v' := by
    intro w v v' hv
    apply BitVec.eq_of_getLsbD_eq
    intro j hj
    have hbyte := congrArg (fun b : Byte => b.getLsbD (j % 8)) (hv (j / 8) (by omega))
    have hlt : j % 8 < 8 := Nat.mod_lt _ (by omega)
    simpa [Mem.byteOf, hlt, Nat.div_add_mod] using hbyte
  rw [bytes_eq, bytes_eq] at h
  obtain ⟨hv4, hrest⟩ := List.append_inj h rfl
  rw [v4Bytes_eq, v4Bytes_eq] at hv4
  simp only [List.cons.injEq, and_true] at hv4
  obtain ⟨hcode, hsize, hp0, hp1, ha0, ha1, ha2, ha3⟩ := hv4
  have hport : d.port = d'.port := by
    apply hword
    intro i hi
    obtain rfl | rfl : i = 0 ∨ i = 1 := by omega
    · exact hp0
    · exact hp1
  have haddr : d.addr = d'.addr := by
    apply hword
    intro i hi
    obtain rfl | rfl | rfl | rfl : i = 0 ∨ i = 1 ∨ i = 2 ∨ i = 3 := by omega
    · exact ha0
    · exact ha1
    · exact ha2
    · exact ha3
  have hrest' : d.rest = d'.rest := by
    apply hword
    intro i hi
    exact List.map_inj_left.mp hrest i (List.mem_range.mpr (by omega))
  obtain ⟨code, size, port, addr, rest⟩ := d
  obtain ⟨code', size', port', addr', rest'⟩ := d'
  simp only at hcode hsize hport haddr hrest'
  subst hcode hsize hport haddr hrest'
  rfl

/-! ## The walk -/

/-- The bytes of an option of one of the two kinds, with its size. -/
def IsSkyOption (o : List Byte) : Prop :=
  (o.take 2 = [tcpoptV4Sky, 8] ∧ o.length = tcpolenV4Sky) ∨
    (o.take 2 = [tcpoptV6Sky, 20] ∧ o.length = tcpolenV6Sky)

/-- The area begins with padding and options of other kinds or sizes, each within it, and then comes
an option of the two, whose bytes are copied to the start of `pdata`. -/
def Parses (area : List Byte) (pdata d : SkyData) : Prop :=
  ∃ (items : List Tlv.Item) (o rest : List Byte), (∀ i ∈ items, i.Passed skyOptions) ∧
    area = Tlv.encode skyOptions items ++ o ++ rest ∧ IsSkyOption o ∧
    d.bytes = o ++ pdata.bytes.drop o.length

theorem skyOption_iff (o : List Byte) :
    IsSkyOption o ↔ ∃ item : Tlv.Item, item.Accepted skyOptions ∧ o = item.encode skyOptions := by
  constructor
  · intro h
    obtain ⟨kind, size, body, rfl⟩ : ∃ kind size body, o = kind :: size :: body := by
      match o, h with
      | [], h => simp [IsSkyOption] at h
      | [_], h => simp [IsSkyOption] at h
      | kind :: size :: body, _ => exact ⟨kind, size, body, rfl⟩
    simp only [IsSkyOption, List.take_succ_cons, List.take_zero, List.cons.injEq, and_true,
      List.length_cons] at h
    refine ⟨.opt kind body, ?_, ?_⟩
    · obtain ⟨⟨rfl, _⟩, hlen⟩ | ⟨⟨rfl, _⟩, hlen⟩ := h
      · exact ⟨by decide, by decide, by rw [hlen]; decide, by rw [hlen]; rfl⟩
      · exact ⟨by decide, by decide, by rw [hlen]; decide, by rw [hlen]; rfl⟩
    · obtain ⟨⟨_, rfl⟩, hlen⟩ | ⟨⟨_, rfl⟩, hlen⟩ := h
      · rw [Tlv.Item.encode, hlen]
        rfl
      · rw [Tlv.Item.encode, hlen]
        rfl
  · rintro ⟨item, hacc, rfl⟩
    cases item with
    | pad => cases hacc
    | opt kind body =>
      have hstop := hacc.2.2.2
      simp only [skyOptions, Bool.or_eq_true, Bool.and_eq_true, decide_eq_true_eq] at hstop
      obtain ⟨rfl, hlen⟩ | ⟨rfl, hlen⟩ := hstop
      · refine .inl ⟨?_, hlen⟩
        rw [Tlv.Item.encode, hlen]
        rfl
      · refine .inr ⟨?_, hlen⟩
        rw [Tlv.Item.encode, hlen]
        rfl

/-- What is copied from the option found at `p`. -/
theorem copy_bytes {ptr : Mem} {p : Nat} {o : List Byte} (pdata : SkyData) (ho : IsSkyOption o)
    (hp : ptr.bytes p o.length = o) :
    (if ptr p = tcpoptV4Sky then pdata.copyV4 ptr p else pdata.copyV6 ptr p).bytes =
      o ++ pdata.bytes.drop o.length := by
  have hkind : o[0]? = some (ptr p) := by
    rw [← hp]
    obtain ⟨_, hlen⟩ | ⟨_, hlen⟩ := ho <;> rw [hlen] <;> rfl
  have hhead : o[0]? = (o.take 2)[0]? := by simp
  obtain ⟨htake, hlen⟩ | ⟨htake, hlen⟩ := ho
  · rw [hhead, htake] at hkind
    rw [if_pos (Option.some.inj hkind).symm, copyV4_bytes]
    rw [hlen] at hp ⊢
    rw [show ptr.bytes p 8 = o from hp]
    rfl
  · rw [hhead, htake] at hkind
    have hne : ptr p ≠ tcpoptV4Sky := by
      rw [← Option.some.inj hkind]
      decide
    rw [if_neg hne, copyV6_bytes]
    rw [hlen] at hp ⊢
    rw [show ptr.bytes p 20 = o from hp]
    rfl

theorem walkToa_some_iff {ptr : Mem} {length : Nat} {pdata d : SkyData} :
    walkToa ptr length pdata = some d ↔ Parses (ptr.bytes 0 length) pdata d := by
  have hwalk : walkToa ptr length pdata = (Tlv.find skyOptions ptr length 0 length).map fun p =>
      if ptr p = tcpoptV4Sky then pdata.copyV4 ptr p else pdata.copyV6 ptr p := by
    rw [walkToa]
    cases Tlv.find skyOptions ptr length 0 length with
    | none => rfl
    | some p =>
      rw [Option.map_some]
      by_cases hv4 : ptr p = tcpoptV4Sky
      · simp only [if_pos hv4]
      · simp only [if_neg hv4]
  rw [hwalk, Option.map_eq_some_iff]
  -- where the bytes of the option are
  have hat : ∀ (items : List Tlv.Item) (o rest : List Byte),
      ptr.bytes 0 length = Tlv.encode skyOptions items ++ o ++ rest →
      ptr.bytes (Tlv.encode skyOptions items).length o.length = o := by
    intro items o rest h
    have hlen := congrArg List.length h
    rw [Mem.bytes_length, List.length_append, List.length_append] at hlen
    rw [List.append_assoc, hlen, Nat.add_assoc, ← Mem.bytes_append, Nat.zero_add] at h
    obtain ⟨_, htail⟩ := List.append_inj h (Mem.bytes_length _ _ _)
    rw [← Mem.bytes_append] at htail
    exact (List.append_inj htail (Mem.bytes_length _ _ _)).1
  constructor
  · rintro ⟨p, hfind, rfl⟩
    obtain ⟨items, item, rest, hitems, hacc, hp, hbytes⟩ := Tlv.find_iff_split.mp hfind
    rw [Nat.zero_add] at hp
    have ho := (skyOption_iff _).mpr ⟨item, hacc, rfl⟩
    subst hp
    exact ⟨items, _, rest, hitems, hbytes, ho, copy_bytes pdata ho (hat _ _ _ hbytes)⟩
  · rintro ⟨items, o, rest, hitems, hbytes, ho, hd⟩
    obtain ⟨item, hacc, rfl⟩ := (skyOption_iff o).mp ho
    refine ⟨(Tlv.encode skyOptions items).length, ?_, ?_⟩
    · exact Tlv.find_iff_split.mpr
        ⟨items, item, rest, hitems, hacc, (Nat.zero_add _).symm, hbytes⟩
    · exact bytes_inj ((copy_bytes pdata ho (hat _ _ _ hbytes)).trans hd.symm)

/-- `get_toa_data_sky` on an option area of any length, with anything in memory behind it: the walk
ends, and returns the first endpoint there is by the grammar of TCP options, or nothing. -/
theorem parses_iff :
    (∀ ptr length pdata d,
      walkToa ptr length pdata = some d ↔ Parses (ptr.bytes 0 length) pdata d) ∧
    (∀ ptr length extra, Tlv.find skyOptions ptr (length + extra) 0 length =
      Tlv.find skyOptions ptr length 0 length) ∧
    ∀ (skb : SkBuff) buff pdata d,
      let length := tcpDoff skb.mem skb.transportHeader * 4 - tcphdrSize
      getToaDataSky skb buff pdata = some d ↔
        ∃ ptr, skb.headerPointer tcphdrSize length buff = some ptr ∧
          Parses (ptr.bytes 0 length) pdata d := by
  refine ⟨fun _ _ _ _ => walkToa_some_iff, fun ptr length extra => Tlv.find_fuel ptr 0 length extra,
    fun skb buff pdata d => ?_⟩
  simp only [getToaDataSky, Option.bind_eq_some_iff, walkToa_some_iff]

/-! ## The packet with the option in -/

/-- `out` is the packet `skb` with the 8 bytes of `toa` between the TCP header and its options, and
the lengths to match. -/
structure WellFormed (skb : SkBuff) (toa : SkyData) (out : SkBuff) : Prop where
  len : out.len = skb.len + 8
  network : out.networkHeader = out.data
  transport : out.transportHeader = out.data + skb.ihl * 4
  ip : ∀ i, i < skb.ihl * 4 → i ≠ 2 → i ≠ 3 → out.mem (out.data + i) = skb.mem (skb.data + i)
  totLen : ipTotLen out.mem out.data = ipTotLen skb.mem skb.data + 8
  tcp : ∀ i, i < 20 → i ≠ 12 →
    out.mem (out.data + skb.ihl * 4 + i) = skb.mem (skb.tcp + i)
  doff : (out.mem (out.data + skb.ihl * 4 + 12)).toNat =
    (skb.doff + 2) * 16 + (skb.mem (skb.tcp + 12)).toNat % 16
  option : out.mem.bytes (out.data + skb.ihl * 4 + 20) 8 = toa.v4Bytes
  options : out.mem.bytes (out.data + skb.ihl * 4 + 28) (skb.doff * 4 - 20) =
    skb.mem.bytes (skb.tcp + 20) (skb.doff * 4 - 20)
  payload : out.mem.bytes (out.data + skb.ihl * 4 + skb.doff * 4 + 8) skb.payloadLen = skb.payload

/-- What `set_toa_data_sky` should leave: the packet with the option in, or the packet as it was
when `doff` cannot count the option. -/
def InsertsOption (skb : SkBuff) (toa : SkyData) (res : Option SkBuff) : Prop :=
  if skb.doff + 2 < 16 then ∃ out, res = some out ∧ WellFormed skb toa out else res = some skb

/-- The total length goes along with the rest of the IP header. -/
theorem sentToa_totLen (slot : Mem) {skb : SkBuff} (htcp : skb.Tcp) (hroom : 8 ≤ skb.data) :
    ipTotLen (sentToa slot skb).mem (sentToa slot skb).data = ipTotLen skb.mem skb.data := by
  have hihl := htcp.ihl_ge
  have hbyte : ∀ i, i < 8 →
      (sentToa slot skb).mem ((sentToa slot skb).data + i) = skb.mem (skb.data + i) := by
    intro i hi
    simp only [sentToa, withToa]
    rw [if_neg (by omega), if_neg (by omega), if_pos (by omega)]
    congr 1
    omega
  have h2 := hbyte 2 (by omega)
  have h3 := hbyte 3 (by omega)
  simp only [ipTotLen, Mem.be16, Nat.add_assoc, Nat.reduceAdd, h2, h3]

theorem not_insertsOption (slot : Mem) {skb : SkBuff} {toa : SkyData} (htcp : skb.Tcp)
    (hcode : toa.code = tcpoptV4Sky) : ¬ InsertsOption skb toa (setToaDataSky slot skb toa) := by
  rw [InsertsOption, setToaDataSky_eq slot htcp hcode]
  split
  · rintro ⟨out, hout, hwell⟩
    split at hout
    · rename_i hroom
      cases hout
      have htot := hwell.totLen
      rw [sentToa_totLen slot htcp hroom] at htot
      omega
    · cases hout
  · intro hsame
    split at hsame
    · -- the packet has grown, with `doff` wrapped
      have hlen := congrArg SkBuff.len (Option.some.inj hsame)
      have hgrown : (sentToa slot skb).len = skb.len + 8 := rfl
      omega
    · cases hsame

/-- No packet comes out of `set_toa_data_sky` as it should. -/
theorem never_well_formed (slot : Mem) (skb : SkBuff) (toa : SkyData) (htcp : skb.Tcp)
    (hcode : toa.code = tcpoptV4Sky) :
    ¬ InsertsOption skb toa (setToaDataSky slot skb toa) :=
  not_insertsOption slot htcp hcode

theorem never_well_formed_syn :
    ¬ InsertsOption synPacket site (setToaDataSky pointerSlot synPacket site) :=
  never_well_formed pointerSlot synPacket site synPacket_tcp.flat rfl

/-- Of the SYN, the total length is still 44 with 52 bytes in the packet, and what follows the TCP
header are bytes of a pointer. -/
theorem syn_not_well_formed :
    ipTotLen synPacket.mem synPacket.data = synPacket.len ∧
      ((setToaDataSky pointerSlot synPacket site).map fun out =>
        (ipTotLen out.mem out.data, out.len, out.mem.bytes (out.data + 41) 2)) =
        some (44, 52, [0x3d, 0x00]) ∧
      ¬ InsertsOption synPacket site (setToaDataSky pointerSlot synPacket site) :=
  ⟨by decide +kernel, by decide +kernel, not_insertsOption pointerSlot synPacket_tcp.flat rfl⟩

end Sky
end Xsky
