import Xsky.Kit.Mem

/-!
# Kit.Endian

Two-byte numbers in network order, on a host of either byte order.

* `load16` — what the host reads from two bytes of memory.
* `hton16` — the host's number whose bytes in memory are those of the argument in network order.
* `store16`, `put16` — the bytes the host stores a number in, and storing it.

A field compared with `hton16` of a constant is compared with the constant itself
(`load16_eq_hton16`) if it is two bytes long. A single byte is not, on a little-endian host
(`byte_eq_hton16`).
-/

namespace Kit

inductive ByteOrder where
  | little
  | big
deriving DecidableEq

namespace ByteOrder

def load16 (o : ByteOrder) (m : Mem) (a : Nat) : BitVec 16 :=
  match o with
  | little => m.read16 a
  | big => BitVec.ofNat 16 (m.be16 a)

def hton16 (o : ByteOrder) (v : BitVec 16) : BitVec 16 :=
  match o with
  | little => BitVec.ofNat 16 (2 ^ 8 * (v.toNat % 2 ^ 8) + v.toNat / 2 ^ 8)
  | big => v

def store16 (o : ByteOrder) (v : BitVec 16) : List Byte :=
  match o with
  | little => [Mem.byteOf v 0, Mem.byteOf v 1]
  | big => [Mem.byteOf v 1, Mem.byteOf v 0]

def put16 (o : ByteOrder) (m : Mem) (a : Nat) (v : BitVec 16) : Mem :=
  m.fill a 2 fun i => (o.store16 v).getD i 0

theorem hton16_little (v : BitVec 16) :
    (little.hton16 v).toNat = 2 ^ 8 * (v.toNat % 2 ^ 8) + v.toNat / 2 ^ 8 := by
  have hv := v.isLt
  simp only [hton16, BitVec.toNat_ofNat]
  exact Nat.mod_eq_of_lt (by omega)

theorem load16_eq_hton16 (o : ByteOrder) (m : Mem) (a : Nat) (v : BitVec 16) :
    o.load16 m a = o.hton16 v ↔ m.be16 a = v.toNat := by
  have h0 := (m a).isLt
  have h1 := (m (a + 1)).isLt
  have hv := v.isLt
  cases o with
  | little =>
    rw [← BitVec.toNat_inj, hton16_little]
    simp only [load16, Mem.read16, Mem.be16, BitVec.toNat_ofNat]
    rw [Nat.mod_eq_of_lt (by omega)]
    omega
  | big =>
    simp only [load16, hton16, Mem.be16, ← BitVec.toNat_inj, BitVec.toNat_ofNat]
    omega

/-- A byte is widened before the comparison, so the conversion should have been left out. -/
theorem byte_eq_hton16 (o : ByteOrder) (b : Byte) {v : BitVec 16} (hpos : 0 < v.toNat)
    (hlt : v.toNat < 2 ^ 8) : b.toNat = (o.hton16 v).toNat ↔ o = big ∧ b.toNat = v.toNat := by
  have hb := b.isLt
  cases o with
  | little =>
    rw [hton16_little, Nat.mod_eq_of_lt hlt, Nat.div_eq_of_lt hlt]
    simp only [reduceCtorEq, false_and, iff_false]
    omega
  | big => simp only [hton16, true_and]

theorem store16_length (o : ByteOrder) (v : BitVec 16) : (o.store16 v).length = 2 := by
  cases o with
  | little => rfl
  | big => rfl

theorem store16_hton16 (o : ByteOrder) (v : BitVec 16) :
    o.store16 (o.hton16 v) = [Mem.byteOf v 1, Mem.byteOf v 0] := by
  have hv := v.isLt
  cases o with
  | little =>
    have hlow : Mem.byteOf (little.hton16 v) 0 = Mem.byteOf v 1 := by
      rw [← BitVec.toNat_inj, Mem.byteOf_toNat, Mem.byteOf_toNat, hton16_little]
      simp only [Nat.reduceMul, Nat.reducePow, Nat.div_one]
      omega
    have hhigh : Mem.byteOf (little.hton16 v) 1 = Mem.byteOf v 0 := by
      rw [← BitVec.toNat_inj, Mem.byteOf_toNat, Mem.byteOf_toNat, hton16_little]
      simp only [Nat.reduceMul, Nat.reducePow, Nat.div_one]
      rw [Nat.mul_add_div (by omega), Nat.div_eq_of_lt (show v.toNat / 256 < 256 by omega),
        Nat.add_zero, Nat.mod_mod]
    simp only [store16, hlow, hhigh]
  | big => rfl

theorem put16_other {o : ByteOrder} {m : Mem} {a x : Nat} {v : BitVec 16}
    (h : x < a ∨ a + 2 ≤ x) : o.put16 m a v x = m x := by
  unfold put16
  rw [Mem.fill_at, if_neg (by omega)]

theorem put16_bytes (o : ByteOrder) (m : Mem) (a : Nat) (v : BitVec 16) :
    (o.put16 m a v).bytes a 2 = o.store16 v := by
  refine Mem.bytes_fill m a ?_
  cases o with
  | little => rfl
  | big => rfl

/-- What is stored through `htons` is in network order. -/
theorem put16_be16 (o : ByteOrder) (m : Mem) (a : Nat) (v : BitVec 16) :
    (o.put16 m a (o.hton16 v)).be16 a = v.toNat := by
  have hv := v.isLt
  unfold put16 Mem.be16
  rw [store16_hton16, Mem.fill_at, Mem.fill_at, if_pos (by omega), if_pos (by omega), Nat.sub_self,
    Nat.add_sub_cancel_left]
  simp only [List.getD_cons_zero, List.getD_cons_succ, Mem.byteOf_toNat, Nat.reduceMul,
    Nat.reducePow, Nat.div_one]
  omega

end ByteOrder
end Kit
