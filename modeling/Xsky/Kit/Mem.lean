import Mathlib.Algebra.Group.Nat.Defs
import Mathlib.Algebra.Group.Int.Defs

/-!
# Kit.Mem

Byte memory as a function of the address, and the accesses programs make to it.

* `read16`, `read32`, `write` — little-endian words; `be16` reads a big-endian one.
* `memcpy` — copies byte by byte, upwards, so that an overlapping copy to a lower address moves the
  source (`memcpy_down`).
* `fill`, `xor32` — bytes from elsewhere, and a word combined with the memory by exclusive or.
* `bytes` — the bytes from an address on, as a list.

Each write comes with one lemma for what it leaves at any address; `omega` decides which case
applies.
-/

namespace Kit

abbrev Byte := BitVec 8

abbrev Mem := Nat → Byte

namespace Mem

/-- Byte `i` of a word, the least significant one first. -/
def byteOf {w : Nat} (v : BitVec w) (i : Nat) : Byte := v.extractLsb' (8 * i) 8

def read16 (m : Mem) (a : Nat) : BitVec 16 :=
  BitVec.ofNat 16 ((m a).toNat + 2 ^ 8 * (m (a + 1)).toNat)

def read32 (m : Mem) (a : Nat) : BitVec 32 :=
  BitVec.ofNat 32 ((m a).toNat + 2 ^ 8 * (m (a + 1)).toNat + 2 ^ 16 * (m (a + 2)).toNat +
    2 ^ 24 * (m (a + 3)).toNat)

/-- The number in the two bytes at `a`, the most significant one first. -/
def be16 (m : Mem) (a : Nat) : Nat := 2 ^ 8 * (m a).toNat + (m (a + 1)).toNat

def set (m : Mem) (a : Nat) (v : Byte) : Mem := fun x => if x = a then v else m x

/-- The `n` lowest bytes of `v` at `a`. -/
def write {w : Nat} (m : Mem) (a n : Nat) (v : BitVec w) : Mem :=
  fun x => if a ≤ x ∧ x < a + n then byteOf v (x - a) else m x

/-- `n` bytes at `a` from `src`. -/
def fill (m : Mem) (a n : Nat) (src : Nat → Byte) : Mem :=
  fun x => if a ≤ x ∧ x < a + n then src (x - a) else m x

def xor32 (m : Mem) (a : Nat) (v : BitVec 32) : Mem :=
  fun x => if a ≤ x ∧ x < a + 4 then m x ^^^ byteOf v (x - a) else m x

/-- `n` bytes from `src` to `dst`, one by one and upwards. -/
def memcpy (m : Mem) (dst src : Nat) : Nat → Mem
  | 0 => m
  | n + 1 =>
    let m' := memcpy m dst src n
    m'.set (dst + n) (m' (src + n))

def bytes (m : Mem) (a n : Nat) : List Byte := (List.range n).map fun i => m (a + i)

theorem byteOf_toNat {w : Nat} (v : BitVec w) (i : Nat) :
    (byteOf v i).toNat = v.toNat / 2 ^ (8 * i) % 2 ^ 8 := by
  simp [byteOf, Nat.shiftRight_eq_div_pow]

@[simp] theorem bytes_length (m : Mem) (a n : Nat) : (m.bytes a n).length = n := by
  simp [bytes]

@[simp] theorem bytes_getElem (m : Mem) (a n i : Nat) (h : i < (m.bytes a n).length) :
    (m.bytes a n)[i] = m (a + i) := by
  simp [bytes]

theorem bytes_congr {m m' : Mem} {a a' n : Nat} (h : ∀ i, i < n → m (a + i) = m' (a' + i)) :
    m.bytes a n = m'.bytes a' n := by
  apply List.ext_getElem
  · simp
  · intro i h1 _
    simpa using h i (by simpa using h1)

theorem bytes_append (m : Mem) (a k n : Nat) :
    m.bytes a k ++ m.bytes (a + k) n = m.bytes a (k + n) := by
  apply List.ext_getElem
  · simp
  · intro i h1 h2
    rw [List.getElem_append]
    split
    · simp
    · rename_i h
      rw [bytes_length] at h
      simp only [bytes_getElem, bytes_length]
      congr 1
      omega

theorem memcpy_down (m : Mem) {dst src : Nat} (h : dst ≤ src) (n x : Nat) :
    memcpy m dst src n x = if dst ≤ x ∧ x < dst + n then m (x - dst + src) else m x := by
  induction n generalizing x with
  | zero => rw [if_neg (by omega)]; rfl
  | succ n ih =>
    simp only [memcpy, set]
    by_cases hx : x = dst + n
    · rw [if_pos hx, ih, if_neg (by omega), if_pos (by omega)]
      congr 1
      omega
    · rw [if_neg hx, ih]
      by_cases hin : dst ≤ x ∧ x < dst + n
      · rw [if_pos hin, if_pos (by omega)]
      · rw [if_neg hin, if_neg (by omega)]

theorem read16_congr {m m' : Mem} {a a' : Nat} (h : ∀ i, i < 2 → m (a + i) = m' (a' + i)) :
    m.read16 a = m'.read16 a' := by
  have h0 := h 0 (by omega)
  have h1 := h 1 (by omega)
  simp only [Nat.add_zero] at h0
  simp only [read16, h0, h1]

theorem read32_congr {m m' : Mem} {a a' : Nat} (h : ∀ i, i < 4 → m (a + i) = m' (a' + i)) :
    m.read32 a = m'.read32 a' := by
  have h0 := h 0 (by omega)
  simp only [Nat.add_zero] at h0
  simp only [read32, h0, h 1 (by omega), h 2 (by omega), h 3 (by omega)]

/-- The bytes at `a` are those of `v` if the word read there is `v`. -/
theorem read16_eq_iff (m : Mem) (a : Nat) (v : BitVec 16) :
    m.read16 a = v ↔ ∀ i, i < 2 → m (a + i) = byteOf v i := by
  constructor
  · rintro rfl i hi
    apply BitVec.eq_of_toNat_eq
    have h0 := (m a).isLt
    have h1 := (m (a + 1)).isLt
    obtain rfl | rfl : i = 0 ∨ i = 1 := by omega
    · simp only [byteOf_toNat, read16, BitVec.toNat_ofNat, Nat.add_zero]
      omega
    · simp only [byteOf_toNat, read16, BitVec.toNat_ofNat]
      omega
  · intro h
    apply BitVec.eq_of_toNat_eq
    have h0 := congrArg BitVec.toNat (h 0 (by omega))
    have h1 := congrArg BitVec.toNat (h 1 (by omega))
    have hv := v.isLt
    simp only [byteOf_toNat, Nat.add_zero] at h0 h1
    simp only [read16, BitVec.toNat_ofNat, h0, h1]
    omega

theorem read32_eq_iff (m : Mem) (a : Nat) (v : BitVec 32) :
    m.read32 a = v ↔ ∀ i, i < 4 → m (a + i) = byteOf v i := by
  constructor
  · rintro rfl i hi
    apply BitVec.eq_of_toNat_eq
    have h0 := (m a).isLt
    have h1 := (m (a + 1)).isLt
    have h2 := (m (a + 2)).isLt
    have h3 := (m (a + 3)).isLt
    obtain rfl | rfl | rfl | rfl : i = 0 ∨ i = 1 ∨ i = 2 ∨ i = 3 := by omega
    all_goals
      simp only [byteOf_toNat, read32, BitVec.toNat_ofNat, Nat.add_zero]
      omega
  · intro h
    apply BitVec.eq_of_toNat_eq
    have h0 := congrArg BitVec.toNat (h 0 (by omega))
    have h1 := congrArg BitVec.toNat (h 1 (by omega))
    have h2 := congrArg BitVec.toNat (h 2 (by omega))
    have h3 := congrArg BitVec.toNat (h 3 (by omega))
    have hv := v.isLt
    simp only [byteOf_toNat, Nat.add_zero] at h0 h1 h2 h3
    simp only [read32, BitVec.toNat_ofNat, h0, h1, h2, h3]
    omega

theorem write_at {w : Nat} (m : Mem) (a n : Nat) (v : BitVec w) (x : Nat) :
    m.write a n v x = if a ≤ x ∧ x < a + n then byteOf v (x - a) else m x := rfl

theorem write_other {w : Nat} (m : Mem) {a n x : Nat} (v : BitVec w) (h : x < a ∨ a + n ≤ x) :
    m.write a n v x = m x := by
  rw [write_at, if_neg (by omega)]

@[simp] theorem read16_write (m : Mem) (a : Nat) (v : BitVec 16) :
    (m.write a 2 v).read16 a = v := by
  refine (read16_eq_iff _ _ _).mpr fun i hi => ?_
  rw [write_at, if_pos (by omega), Nat.add_sub_cancel_left]

@[simp] theorem read32_write (m : Mem) (a : Nat) (v : BitVec 32) :
    (m.write a 4 v).read32 a = v := by
  refine (read32_eq_iff _ _ _).mpr fun i hi => ?_
  rw [write_at, if_pos (by omega), Nat.add_sub_cancel_left]

theorem fill_at (m : Mem) (a n : Nat) (src : Nat → Byte) (x : Nat) :
    m.fill a n src x = if a ≤ x ∧ x < a + n then src (x - a) else m x := rfl

theorem xor32_at (m : Mem) (a : Nat) (v : BitVec 32) (x : Nat) :
    m.xor32 a v x = if a ≤ x ∧ x < a + 4 then m x ^^^ byteOf v (x - a) else m x := rfl

theorem xor32_other (m : Mem) {a x : Nat} (v : BitVec 32) (h : x < a ∨ a + 4 ≤ x) :
    m.xor32 a v x = m x := by
  rw [xor32_at, if_neg (by omega)]

theorem set_at (m : Mem) (a : Nat) (v : Byte) (x : Nat) :
    m.set a v x = if x = a then v else m x := rfl

theorem bytes_take (m : Mem) (a : Nat) {k n : Nat} (h : k ≤ n) :
    (m.bytes a n).take k = m.bytes a k := by
  rw [show n = k + (n - k) by omega, ← bytes_append, List.take_left' (bytes_length m a k)]

theorem bytes_drop (m : Mem) (a : Nat) {k n : Nat} (h : k ≤ n) :
    (m.bytes a n).drop k = m.bytes (a + k) (n - k) := by
  rw [show n = k + (n - k) by omega, ← bytes_append, List.drop_left' (bytes_length m a k),
    Nat.add_sub_cancel_left]

/-- A list of bytes that has been stored. -/
theorem bytes_fill (m : Mem) (a : Nat) {l : List Byte} {n : Nat} (h : l.length = n) :
    (m.fill a n fun i => l.getD i 0).bytes a n = l := by
  subst h
  apply List.ext_getElem
  · rw [bytes_length]
  · intro i h1 h2
    rw [bytes_getElem, fill_at, if_pos (by omega), Nat.add_sub_cancel_left]
    simp [h2]

/-- Bytes in the middle of others. -/
theorem infix_bytes (m : Mem) (a n : Nat) (t : List Byte) :
    t <:+: m.bytes a n ↔ ∃ i, i + t.length ≤ n ∧ m.bytes (a + i) t.length = t := by
  constructor
  · intro h
    obtain ⟨s, u, heq⟩ := h
    have hlen := congrArg List.length heq
    rw [List.length_append, List.length_append, bytes_length] at hlen
    refine ⟨s.length, by omega, ?_⟩
    rw [← hlen, ← bytes_append, ← bytes_append] at heq
    have hfront := (List.append_inj heq (by simp)).1
    exact (List.append_inj hfront (by simp)).2.symm
  · intro h
    obtain ⟨i, hi, heq⟩ := h
    refine ⟨m.bytes a i, m.bytes (a + (i + t.length)) (n - (i + t.length)), ?_⟩
    have hsplit := bytes_append m a i t.length
    rw [heq] at hsplit
    rw [hsplit, bytes_append]
    congr 1
    omega

theorem suffix_bytes (m : Mem) (a n : Nat) (t : List Byte) :
    t <:+ m.bytes a n ↔ t.length ≤ n ∧ m.bytes (a + (n - t.length)) t.length = t := by
  constructor
  · intro h
    obtain ⟨s, heq⟩ := h
    have hlen := congrArg List.length heq
    rw [List.length_append, bytes_length] at hlen
    refine ⟨by omega, ?_⟩
    rw [← hlen, ← bytes_append] at heq
    rw [show n - t.length = s.length by omega]
    exact (List.append_inj heq (by simp)).2.symm
  · intro h
    obtain ⟨hle, heq⟩ := h
    refine ⟨m.bytes a (n - t.length), ?_⟩
    have hsplit := bytes_append m a (n - t.length) t.length
    rw [heq] at hsplit
    rw [hsplit]
    congr 1
    omega
end Mem

end Kit
