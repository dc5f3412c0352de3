import Mathlib.Data.List.Basic
import Xsky.Sky.Toa

/-!
# Sky.Walk

The bytes `get_toa_data_sky` reads of the option area: kinds and sizes on its way, and the option it
copies.

The size is read before the bytes left are looked at. `option_reads_iff` says for which areas all of
the reads lie inside: those that do not end in a kind without its size.
-/

namespace Xsky
namespace Sky

open Kit

/-- What is copied from the option at `p`. -/
def copiedReads (ptr : Mem) (p : Nat) : List Nat :=
  (List.range (if ptr p = tcpoptV4Sky then tcpolenV4Sky else tcpolenV6Sky)).map (p + ·)

/-- The positions read from `ptr`, in order. -/
def walkToaReads (ptr : Mem) (length : Nat) : List Nat :=
  Tlv.reads skyOptions ptr length 0 length ++
    match Tlv.find skyOptions ptr length 0 length with
    | none => []
    | some p => copiedReads ptr p

/-- The positions read behind the first 20 bytes of the TCP header. -/
def getToaDataSkyReads (skb : SkBuff) (buff : Mem) : List Nat :=
  let length := tcpDoff skb.mem skb.transportHeader * 4 - tcphdrSize
  match skb.headerPointer tcphdrSize length buff with
  | none => []
  | some ptr => walkToaReads ptr length

/-- The area consists of padding and options the walk passes over, and a last byte that is neither
the end marker nor padding. -/
def EndsInKind (area : List Byte) : Prop :=
  ∃ (items : List Tlv.Item) (kind : Byte), (∀ i ∈ items, i.Passed skyOptions) ∧
    kind ≠ skyOptions.eol ∧ kind ≠ skyOptions.nop ∧
    area = Tlv.encode skyOptions items ++ [kind]

theorem copyV4_congr {m m' : Mem} {a : Nat} (d : SkyData)
    (h : ∀ i, i < 8 → m (a + i) = m' (a + i)) : d.copyV4 m a = d.copyV4 m' a := by
  have h0 : m a = m' a := h 0 (by omega)
  have hport : m.read16 (a + 2) = m'.read16 (a + 2) :=
    Mem.read16_congr fun i hi => by
      rw [Nat.add_assoc]
      exact h _ (by omega)
  have haddr : m.read32 (a + 4) = m'.read32 (a + 4) :=
    Mem.read32_congr fun i hi => by
      rw [Nat.add_assoc]
      exact h _ (by omega)
  rw [SkyData.copyV4, SkyData.copyV4, h0, h 1 (by omega), hport, haddr]

theorem read96_congr {m m' : Mem} {a : Nat} (h : ∀ i, i < 12 → m (a + i) = m' (a + i)) :
    read96 m a = read96 m' a := by
  have hfold : (List.range 12).foldr (fun i v => (m (a + i)).toNat + 2 ^ 8 * v) 0 =
      (List.range 12).foldr (fun i v => (m' (a + i)).toNat + 2 ^ 8 * v) 0 :=
    List.foldr_ext _ _ _ fun i hi v => by rw [h i (List.mem_range.mp hi)]
  rw [read96, read96, hfold]

/-- What is found and copied depends on the bytes read alone. -/
theorem walkToa_congr {ptr ptr' : Mem} {length : Nat} (pdata : SkyData)
    (h : ∀ x ∈ walkToaReads ptr length, ptr x = ptr' x) :
    walkToa ptr' length pdata = walkToa ptr length pdata := by
  rw [walkToaReads] at h
  have hfind : Tlv.find skyOptions ptr' length 0 length = Tlv.find skyOptions ptr length 0 length :=
    Tlv.find_congr fun x hx => h x (List.mem_append_left _ hx)
  rw [walkToa, walkToa, hfind]
  cases hp : Tlv.find skyOptions ptr length 0 length with
  | none => rfl
  | some p =>
    rw [hp] at h
    have hcopied : ∀ i, i < (if ptr p = tcpoptV4Sky then tcpolenV4Sky else tcpolenV6Sky) →
        ptr (p + i) = ptr' (p + i) := by
      intro i hi
      refine h _ (List.mem_append_right _ ?_)
      exact List.mem_map.mpr ⟨i, List.mem_range.mpr hi, rfl⟩
    have hkind : ptr p = ptr' p := by
      refine hcopied 0 ?_
      split <;> decide
    simp only [← hkind]
    split
    · rename_i hv4
      rw [if_pos hv4] at hcopied
      rw [copyV4_congr pdata fun i hi => hcopied i hi]
    · rename_i hv6
      rw [if_neg hv6] at hcopied
      have hv4 : pdata.copyV4 ptr p = pdata.copyV4 ptr' p :=
        copyV4_congr pdata fun i hi => hcopied i (Nat.lt_trans hi (by decide))
      have hrest : read96 ptr (p + 8) = read96 ptr' (p + 8) :=
        read96_congr fun i hi => by
          rw [Nat.add_assoc]
          exact hcopied _ (Nat.add_lt_add_left hi 8)
      rw [SkyData.copyV6, SkyData.copyV6, hv4, hrest]

/-- An option that is found lies in the area, all that is copied of it. -/
theorem copiedReads_within {ptr : Mem} {length p : Nat}
    (h : Tlv.find skyOptions ptr length 0 length = some p) :
    ∀ x ∈ copiedReads ptr p, x < length := by
  obtain ⟨items, -, hp, -, hle, hstop⟩ := Tlv.find_sound h
  have hsize := hstop.size_le
  have hacc := hstop.accepted
  intro x hx
  obtain ⟨i, hi, rfl⟩ := List.mem_map.mp hx
  rw [List.mem_range] at hi
  simp only [skyOptions, Bool.or_eq_true, Bool.and_eq_true, decide_eq_true_eq] at hacc
  obtain ⟨hv4, hlen⟩ | ⟨hv6, hlen⟩ := hacc
  · rw [if_pos hv4] at hi
    omega
  · have hne : ptr p ≠ tcpoptV4Sky := by
      rw [hv6]
      decide
    rw [if_neg hne] at hi
    omega

theorem walkToaReads_within_iff (ptr : Mem) (length : Nat) :
    (∀ x ∈ walkToaReads ptr length, x < length) ↔ ¬ EndsInKind (ptr.bytes 0 length) := by
  have hwalk := @Tlv.reads_within_iff skyOptions ptr length 0 length (Nat.le_refl length)
  rw [Nat.zero_add] at hwalk
  refine Iff.trans ?_ hwalk
  rw [walkToaReads, List.forall_mem_append]
  refine and_iff_left ?_
  split
  · intro x hx
    cases hx
  · rename_i p hp
    exact copiedReads_within hp

/-- All that is read of the option area `skb_header_pointer` returns is in it unless the area ends
in a kind without its size, and then the byte behind the area is read. -/
theorem option_reads_iff (skb : SkBuff) (buff : Mem) :
    let length := tcpDoff skb.mem skb.transportHeader * 4 - tcphdrSize
    (∀ x ∈ getToaDataSkyReads skb buff, x < length) ↔
      ¬ ∃ ptr, skb.headerPointer tcphdrSize length buff = some ptr ∧
        EndsInKind (ptr.bytes 0 length) := by
  intro length
  have hreads : getToaDataSkyReads skb buff =
      match skb.headerPointer tcphdrSize length buff with
      | none => []
      | some ptr => walkToaReads ptr length := rfl
  rw [hreads]
  cases skb.headerPointer tcphdrSize length buff with
  | none => simp
  | some ptr => simpa using walkToaReads_within_iff ptr length

/-- A header with `doff` 6, and an area of three bytes of padding and a kind. -/
def kindPacket : SkBuff where
  mem := fun x => if x = 0 then 0x45 else if x = 32 then 0x60 else if x = 23 then 5 else 1
  data := 0
  len := 44
  frags := []
  networkHeader := 0
  transportHeader := 20
  ipSummed := 0
  csum := 0

/-- The last kind is at 3, and its size is read at 4. -/
theorem kind_at_end :
    tcpDoff kindPacket.mem kindPacket.transportHeader = 6 ∧
      ¬ ∀ x ∈ getToaDataSkyReads kindPacket (fun _ => 0), x < 6 * 4 - 20 := by
  decide

end Sky
end Xsky
