import Xsky.Kit.Mem

/-!
# Kit.Buf

A buffer of so many bytes, whose reads fail outside it.

* `be16` — a number of two bytes, the most significant one first.
* `head` — the first bytes.
* `mem`  — the buffer as memory, zero behind it.
-/

namespace Kit

abbrev Buf := List Byte

namespace Buf

def be16 (b : Buf) (i : Nat) : Option Nat :=
  match b[i]?, b[i + 1]? with
  | some hi, some lo => some (2 ^ 8 * hi.toNat + lo.toNat)
  | _, _ => none

def head (b : Buf) (n : Nat) : Option Buf := if n ≤ b.length then some (b.take n) else none

def mem (b : Buf) : Mem := fun i => b.getD i 0

variable {b : Buf} {i n : Nat}

theorem getElem?_mem (h : i < b.length) : b[i]? = some (b.mem i) := by
  simp [mem, h]

theorem be16_mem (h : i + 1 < b.length) : b.be16 i = some (b.mem.be16 i) := by
  unfold be16 Mem.be16
  rw [getElem?_mem (by omega), getElem?_mem h]

theorem be16_none (h : b.length ≤ i + 1) : b.be16 i = none := by
  unfold be16
  rw [List.getElem?_eq_none h]
  split
  · rename_i hlo
    cases hlo
  · rfl

theorem head_append {c : Buf} (h : b.length = n) : (b ++ c).head n = some b := by
  unfold head
  rw [if_pos (by rw [List.length_append]; omega), ← h, List.take_left]

theorem mem_append_right {c : Buf} (h : b.length = n) (i : Nat) :
    (b ++ c).mem (n + i) = c.mem i := by
  have hright : n ≤ n + i := Nat.le_add_right n i
  unfold mem
  rw [List.getD_eq_getElem?_getD, List.getD_eq_getElem?_getD,
    List.getElem?_append_right (by rw [h]; exact hright), h, Nat.add_sub_cancel_left]

end Buf
end Kit
