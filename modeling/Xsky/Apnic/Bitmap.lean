import Xsky.Kit.Mem

/-!
# Apnic.Bitmap

`xsky::mmap`: bits in a mapped file, bit `index % 8` of byte `index / 8`.

`read_write` says what every later read returns after a write, and `ext_read` that the reads
determine the mapped bytes.
-/

namespace Xsky
namespace Apnic

open Kit

/-- The bytes from `_address` on. -/
abbrev Mmap := Mem

namespace Mmap

def zero : Mmap := fun _ => 0

def read (m : Mmap) (index : Nat) : Bool := m (index / 8) &&& (1#8 <<< (index % 8)) != 0

def write (m : Mmap) (index : Nat) (value : Bool) : Mmap :=
  if value then Mem.set m (index / 8) (m (index / 8) ||| (1#8 <<< (index % 8)))
  else Mem.set m (index / 8) (m (index / 8) &&& ~~~(1#8 <<< (index % 8)))

theorem getLsbD_mask {w k : Nat} (hk : k < w) (j : Nat) :
    (1#w <<< k).getLsbD j = decide (j = k) := by
  rw [← BitVec.twoPow_eq, BitVec.getLsbD_twoPow, decide_eq_true hk, Bool.true_and]
  exact decide_eq_decide.mpr eq_comm

theorem read_eq (m : Mmap) (index : Nat) : m.read index = (m (index / 8)).getLsbD (index % 8) := by
  have hk : index % 8 < 8 := by omega
  unfold read
  rw [← BitVec.twoPow_eq, BitVec.and_twoPow, BitVec.twoPow_eq]
  cases h : (m (index / 8)).getLsbD (index % 8) with
  | true =>
    rw [if_pos rfl, bne_iff_ne]
    intro h0
    have hbit := getLsbD_mask hk (index % 8)
    simp [h0] at hbit
  | false => simp

@[simp] theorem read_zero (index : Nat) : zero.read index = false := by
  rw [read_eq]
  simp [zero]

theorem read_write (m : Mmap) (i j : Nat) (v : Bool) :
    (m.write i v).read j = if j = i then v else m.read j := by
  have hi : i % 8 < 8 := by omega
  have hj : j % 8 < 8 := by omega
  have hmask := getLsbD_mask hi (j % 8)
  rw [read_eq, read_eq]
  by_cases hbyte : j / 8 = i / 8
  · have hiff : j % 8 = i % 8 ↔ j = i := by
      constructor
      · intro hbit
        omega
      · rintro rfl
        rfl
    cases v with
    | true =>
      simp only [write, if_true, Mem.set, hbyte, BitVec.getLsbD_or, hmask, hiff]
      by_cases h : j = i <;> simp [h]
    | false =>
      simp only [write, Bool.false_eq_true, if_false, Mem.set, hbyte, if_true, BitVec.getLsbD_and,
        BitVec.getLsbD_not, hmask, hiff, hj, decide_true]
      by_cases h : j = i <;> simp [h]
  · have hne : j ≠ i := by
      rintro rfl
      exact hbyte rfl
    cases v <;> simp [write, Mem.set, hbyte, hne]

theorem ext_read {m m' : Mmap} (h : ∀ index, m.read index = m'.read index) : m = m' := by
  funext i
  apply BitVec.eq_of_getLsbD_eq
  intro j hj
  have hbit := h (8 * i + j)
  rwa [read_eq, read_eq, show (8 * i + j) / 8 = i by omega,
    show (8 * i + j) % 8 = j by omega] at hbit

end Mmap
end Apnic
end Xsky
