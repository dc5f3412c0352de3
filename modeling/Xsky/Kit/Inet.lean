import Xsky.Kit.Mem

/-!
# Kit.Inet

The Internet checksum: the complement of the ones'-complement sum of the 16-bit words that a
sequence of bytes makes up, a last byte being a word with a zero. Words are read little-endian; the
sum of the words read the other way is the sum with its bytes exchanged.

* `onesSum`  — the sum, every carry out of 16 bits added at the other end.
* `Verifies` — what a receiver asks of bytes that contain their checksum.
* `wordSum`  — the sum as a number. `Verifies` is a statement about it modulo 65535
  (`verifies_iff`), and what a change of some of the bytes does to it is what it does to their sum
  (`wordSum_replace`).
-/

namespace Kit
namespace Inet

/-- Addition with end-around carry. -/
def addc (x y : BitVec 16) : BitVec 16 :=
  if x.toNat + y.toNat < 2 ^ 16 then x + y else x + y + 1

def word (b c : Byte) : BitVec 16 := BitVec.ofNat 16 (b.toNat + 2 ^ 8 * c.toNat)

def onesSum : List Byte → BitVec 16
  | [] => 0
  | [b] => word b 0
  | b :: c :: bs => addc (word b c) (onesSum bs)

def checksum (bs : List Byte) : BitVec 16 := ~~~onesSum bs

def Verifies (bs : List Byte) : Prop := onesSum bs = 0xffff

instance (bs : List Byte) : Decidable (Verifies bs) :=
  inferInstanceAs (Decidable (onesSum bs = 0xffff))

/-- A sum kept in 32 bits. -/
def fold (s : BitVec 32) : BitVec 16 := addc (s.extractLsb' 0 16) (s.extractLsb' 16 16)

/-- The pseudo-header of a segment of `n` bytes, the addresses in network order. -/
def pseudoHeader (saddr daddr : BitVec 32) (proto : Byte) (n : Nat) : List Byte :=
  [Mem.byteOf saddr 0, Mem.byteOf saddr 1, Mem.byteOf saddr 2, Mem.byteOf saddr 3,
    Mem.byteOf daddr 0, Mem.byteOf daddr 1, Mem.byteOf daddr 2, Mem.byteOf daddr 3,
    0, proto, BitVec.ofNat 8 (n / 2 ^ 8), BitVec.ofNat 8 n]

def wordSum : List Byte → Nat
  | [] => 0
  | [b] => b.toNat
  | b :: c :: bs => b.toNat + 2 ^ 8 * c.toNat + wordSum bs

/-! ## The sum as a number -/

theorem addc_toNat (x y : BitVec 16) :
    (addc x y).toNat =
      if x.toNat + y.toNat < 2 ^ 16 then x.toNat + y.toNat else x.toNat + y.toNat - 65535 := by
  have hx := x.isLt
  have hy := y.isLt
  rw [addc]
  split
  · rw [BitVec.toNat_add]
    omega
  · rw [BitVec.toNat_add, BitVec.toNat_add]
    simp only [BitVec.reduceToNat]
    omega

theorem word_toNat (b c : Byte) : (word b c).toNat = b.toNat + 2 ^ 8 * c.toNat := by
  have hb := b.isLt
  have hc := c.isLt
  rw [word, BitVec.toNat_ofNat]
  omega

/-- Two sums are equal in ones' complement when they are equal modulo 65535 and both or neither of
them is zero. -/
theorem onesSum_wordSum (bs : List Byte) :
    (onesSum bs).toNat % 65535 = wordSum bs % 65535 ∧
      ((onesSum bs).toNat = 0 ↔ wordSum bs = 0) := by
  induction bs using onesSum.induct with
  | case1 => exact ⟨rfl, Iff.rfl⟩
  | case2 b =>
    simp only [onesSum, wordSum, word_toNat]
    exact ⟨rfl, Iff.rfl⟩
  | case3 b c bs ih =>
    obtain ⟨hmod, hzero⟩ := ih
    have hlt := (onesSum bs).isLt
    have hword := (word b c).isLt
    rw [word_toNat] at hword
    simp only [onesSum, wordSum, addc_toNat, word_toNat]
    constructor
    · split
      · omega
      · omega
    · split
      · omega
      · omega

theorem verifies_iff (bs : List Byte) :
    Verifies bs ↔ wordSum bs % 65535 = 0 ∧ wordSum bs ≠ 0 := by
  obtain ⟨hmod, hzero⟩ := onesSum_wordSum bs
  have hlt := (onesSum bs).isLt
  rw [Verifies, ← BitVec.toNat_inj]
  simp only [BitVec.reduceToNat]
  omega

theorem not_toNat (v : BitVec 16) : (~~~v).toNat = 65535 - v.toNat := BitVec.toNat_not

/-- The sum of bytes and their checksum. -/
theorem checksum_add (bs : List Byte) :
    ((checksum bs).toNat + wordSum bs) % 65535 = 0 ∧ (checksum bs).toNat + wordSum bs ≠ 0 := by
  obtain ⟨hmod, hzero⟩ := onesSum_wordSum bs
  have hlt := (onesSum bs).isLt
  rw [checksum, not_toNat]
  omega

example : checksum [0x00, 0x01, 0xf2, 0x03, 0xf4, 0xf5, 0xf6, 0xf7] = 0x0d22 := by decide

theorem addc_zero (x : BitVec 16) : addc x 0 = x := by
  have hx := x.isLt
  have hzero : (0 : BitVec 16).toNat = 0 := rfl
  rw [← BitVec.toNat_inj, addc_toNat, hzero, Nat.add_zero, if_pos hx]

/-- A sum of 16 bits needs no folding. -/
theorem fold_setWidth (x : BitVec 16) : fold (x.setWidth 32) = x := by
  have hx := x.isLt
  have hlow : (x.setWidth 32).extractLsb' 0 16 = x := by
    rw [← BitVec.toNat_inj]
    simp only [BitVec.extractLsb'_toNat, BitVec.toNat_setWidth, Nat.shiftRight_zero]
    omega
  have hhigh : (x.setWidth 32).extractLsb' 16 16 = 0 := by
    have hzero : (0 : BitVec 16).toNat = 0 := rfl
    rw [← BitVec.toNat_inj, hzero]
    simp only [BitVec.extractLsb'_toNat, BitVec.toNat_setWidth, Nat.shiftRight_eq_div_pow]
    omega
  rw [fold, hlow, hhigh, addc_zero]

/-- The complement of two sums added up. -/
theorem not_addc_add (xs ys : List Byte) :
    ((~~~addc (onesSum xs) (onesSum ys)).toNat + wordSum xs + wordSum ys) % 65535 = 0 := by
  have hx := (onesSum_wordSum xs).1
  have hy := (onesSum_wordSum ys).1
  have hlt := (addc (onesSum xs) (onesSum ys)).isLt
  rw [not_toNat]
  rw [addc_toNat] at hlt ⊢
  split
  · omega
  · omega

theorem toNat_mod_zero_iff (v : BitVec 16) : v.toNat % 65535 = 0 ↔ v = 0 ∨ v = 0xffff := by
  have hv := v.isLt
  rw [← BitVec.toNat_inj, ← BitVec.toNat_inj]
  simp only [BitVec.reduceToNat]
  omega

/-! ## Sums of parts -/

theorem wordSum_append (xs ys : List Byte) (h : xs.length % 2 = 0) :
    wordSum (xs ++ ys) = wordSum xs + wordSum ys := by
  induction xs using wordSum.induct with
  | case1 => simp [wordSum]
  | case2 b => simp at h
  | case3 b c bs ih =>
    have hbs : bs.length % 2 = 0 := by
      simp only [List.length_cons] at h
      omega
    simp only [List.cons_append, wordSum, ih hbs]
    omega

theorem wordSum_bytes_add (m : Mem) (a : Nat) {k : Nat} (n : Nat) (hk : k % 2 = 0) :
    wordSum (m.bytes a (k + n)) = wordSum (m.bytes a k) + wordSum (m.bytes (a + k) n) := by
  rw [← Mem.bytes_append, wordSum_append _ _ (by rw [Mem.bytes_length]; exact hk)]

theorem wordSum_bytes_two (m : Mem) (a : Nat) :
    wordSum (m.bytes a 2) = (m.read16 a).toNat := by
  have h0 := (m a).isLt
  have h1 := (m (a + 1)).isLt
  change (m a).toNat + 2 ^ 8 * (m (a + 1)).toNat + 0 = _
  rw [Mem.read16, BitVec.toNat_ofNat]
  omega

/-- `j` bytes from the `k`-th on are changed. -/
theorem wordSum_replace {m m' : Mem} {a k j n : Nat} (hk : k % 2 = 0)
    (hj : j % 2 = 0 ∨ k + j = n) (hle : k + j ≤ n)
    (hout : ∀ i, i < n → i < k ∨ k + j ≤ i → m' (a + i) = m (a + i)) :
    wordSum (m'.bytes a n) + wordSum (m.bytes (a + k) j) =
      wordSum (m.bytes a n) + wordSum (m'.bytes (a + k) j) := by
  have hsplit : ∀ m : Mem, wordSum (m.bytes a n) =
      wordSum (m.bytes a k) + wordSum (m.bytes (a + k) j) +
        wordSum (m.bytes (a + k + j) (n - (k + j))) := by
    intro m
    obtain hj | hj := hj
    · have hn : n = k + (j + (n - (k + j))) := by omega
      conv => lhs; rw [hn]
      rw [wordSum_bytes_add m a _ hk, wordSum_bytes_add m (a + k) _ hj, ← Nat.add_assoc]
    · have hn : n - (k + j) = 0 := by omega
      rw [hn, ← hj, wordSum_bytes_add m a _ hk]
      rfl
  have hfront : m'.bytes a k = m.bytes a k :=
    Mem.bytes_congr fun i hi => hout i (by omega) (.inl hi)
  have hback : m'.bytes (a + k + j) (n - (k + j)) = m.bytes (a + k + j) (n - (k + j)) := by
    refine Mem.bytes_congr fun i hi => ?_
    have := hout (k + j + i) (by omega) (.inr (by omega))
    rwa [← Nat.add_assoc, ← Nat.add_assoc] at this
  rw [hsplit m', hsplit m, hfront, hback]
  omega

/-- A word is written into the bytes. -/
theorem wordSum_write (m : Mem) {a k n : Nat} (v : BitVec 16) (hk : k % 2 = 0) (hle : k + 2 ≤ n) :
    wordSum ((m.write (a + k) 2 v).bytes a n) + (m.read16 (a + k)).toNat =
      wordSum (m.bytes a n) + v.toNat := by
  have hout : ∀ i, i < n → i < k ∨ k + 2 ≤ i → m.write (a + k) 2 v (a + i) = m (a + i) := by
    intro i _ hi
    exact Mem.write_other _ _ (by omega)
  have hreplace := wordSum_replace hk (.inl rfl) hle hout
  rwa [wordSum_bytes_two, wordSum_bytes_two, Mem.read16_write] at hreplace

/-- Bytes verify once their checksum, computed with its own field zero, is stored in them. -/
theorem verifies_write (m : Mem) {a k n : Nat} (hk : k % 2 = 0) (hle : k + 2 ≤ n) :
    let zeroed := m.write (a + k) 2 (0 : BitVec 16)
    Verifies ((zeroed.write (a + k) 2 (checksum (zeroed.bytes a n))).bytes a n) := by
  intro zeroed
  have hread : zeroed.read16 (a + k) = 0 := Mem.read16_write _ _ _
  have hwrite := wordSum_write zeroed (a := a) (checksum (zeroed.bytes a n)) hk hle
  obtain ⟨hmod, hpos⟩ := checksum_add (zeroed.bytes a n)
  rw [hread] at hwrite
  simp only [BitVec.reduceToNat] at hwrite
  rw [verifies_iff]
  omega

/-- The two halves of an address. -/
def halves (addr : BitVec 32) : Nat := addr.toNat % 2 ^ 16 + addr.toNat / 2 ^ 16

theorem halves_bytes (addr : BitVec 32) :
    (Mem.byteOf addr 0).toNat + 2 ^ 8 * (Mem.byteOf addr 1).toNat +
      ((Mem.byteOf addr 2).toNat + 2 ^ 8 * (Mem.byteOf addr 3).toNat) = halves addr := by
  have haddr := addr.isLt
  simp only [Mem.byteOf_toNat, halves, Nat.reduceMul, Nat.reducePow]
  omega

@[simp] theorem pseudoHeader_length (saddr daddr : BitVec 32) (proto : Byte) (n : Nat) :
    (pseudoHeader saddr daddr proto n).length = 12 := rfl

theorem wordSum_pseudoHeader (saddr daddr : BitVec 32) (proto : Byte) (n : Nat) :
    wordSum (pseudoHeader saddr daddr proto n) =
      halves saddr + halves daddr + 2 ^ 8 * proto.toNat +
        (n / 2 ^ 8 % 2 ^ 8 + 2 ^ 8 * (n % 2 ^ 8)) := by
  have hs := halves_bytes saddr
  have hd := halves_bytes daddr
  have hzero : (0 : Byte).toNat = 0 := rfl
  simp only [pseudoHeader, wordSum, BitVec.toNat_ofNat, hzero]
  omega

end Inet
end Kit
