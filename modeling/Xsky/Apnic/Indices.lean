import Xsky.Kit.Buf
import Xsky.Kit.Runs
import Xsky.Apnic.Records

/-!
# Apnic.Indices

The bitmaps as the program has them: so many mapped bytes, masks that are computed as an `int` and
cut to a byte again, and an index for each address.

A read or write outside the mapping faults. `read_view` and `write_view` relate the mapping to the
memory of `Mmap`, and `bitmap_is_set` says that it holds a set of indices, in which there is room
for every address.
-/

namespace Xsky
namespace Apnic

open Kit

/-! ## The mapped bytes -/

/-- `1 << ( index % 8 )` -/
def mask (index : Nat) : BitVec 32 := 1#32 <<< (index % 8)

namespace Mapping

def read (m : Buf) (index : Nat) : Option Bool :=
  (m[index / 8]?).map fun b => b.setWidth 32 &&& mask index != 0

def write (m : Buf) (index : Nat) (value : Bool) : Option Buf :=
  (m[index / 8]?).map fun b =>
    if value then m.set (index / 8) ((b.setWidth 32 ||| mask index).setWidth 8)
    else m.set (index / 8) ((b.setWidth 32 &&& ~~~mask index).setWidth 8)

/-- A call of `write`. -/
def step (m : Buf) (w : Nat × Bool) : Option Buf := write m w.1 w.2

end Mapping

theorem getLsbD_mask (index i : Nat) : (mask index).getLsbD i = decide (i = index % 8) :=
  Mmap.getLsbD_mask (by omega) i

theorem or_mask (b : Byte) (index : Nat) :
    (b.setWidth 32 ||| mask index).setWidth 8 = b ||| 1#8 <<< (index % 8) := by
  have hk : index % 8 < 8 := by omega
  apply BitVec.eq_of_getLsbD_eq
  intro i hi
  have hi32 : i < 32 := by omega
  simp only [BitVec.getLsbD_setWidth, BitVec.getLsbD_or, getLsbD_mask, Mmap.getLsbD_mask hk, hi,
    hi32, decide_true, Bool.true_and]

theorem and_mask (b : Byte) (index : Nat) :
    (b.setWidth 32 &&& ~~~mask index).setWidth 8 = b &&& ~~~(1#8 <<< (index % 8)) := by
  have hk : index % 8 < 8 := by omega
  apply BitVec.eq_of_getLsbD_eq
  intro i hi
  have hi32 : i < 32 := by omega
  simp only [BitVec.getLsbD_setWidth, BitVec.getLsbD_and, BitVec.getLsbD_not, getLsbD_mask,
    Mmap.getLsbD_mask hk, hi, hi32, decide_true, Bool.true_and]

/-- The bits of the `int` from the eighth on are not in the mask. -/
theorem test_mask (b : Byte) (index : Nat) :
    (b.setWidth 32 &&& mask index != 0) = (b &&& 1#8 <<< (index % 8) != 0) := by
  have hk : index % 8 < 8 := by omega
  have hwide : b.setWidth 32 &&& mask index = (b &&& 1#8 <<< (index % 8)).setWidth 32 := by
    apply BitVec.eq_of_getLsbD_eq
    intro i hi
    simp only [BitVec.getLsbD_setWidth, BitVec.getLsbD_and, getLsbD_mask, Mmap.getLsbD_mask hk, hi,
      decide_true, Bool.true_and]
  have hzero : ∀ x : Byte, x.setWidth 32 = 0#32 ↔ x = 0#8 := by
    intro x
    have hx := x.isLt
    constructor
    · intro h
      apply BitVec.eq_of_toNat_eq
      have hnat := congrArg BitVec.toNat h
      rw [BitVec.toNat_setWidth, Nat.mod_eq_of_lt (by omega)] at hnat
      exact hnat
    · rintro rfl
      rfl
  rw [hwide, Bool.eq_iff_iff, bne_iff_ne, bne_iff_ne]
  exact not_congr (hzero _)

/-! ## The mapping as memory -/

section View

variable {m : Buf} {index : Nat}

/-- Inside the mapping an access is that of `Mmap`. -/
theorem read_view (h : index < 8 * m.length) :
    Mapping.read m index = some (Mmap.read m.mem index) := by
  have hlt : index / 8 < m.length := by omega
  rw [Mapping.read, Buf.getElem?_mem hlt, Option.map_some, test_mask]
  rfl

theorem mem_set {i : Nat} (h : i < m.length) (b : Byte) :
    Buf.mem (m.set i b) = Mem.set m.mem i b := by
  funext x
  rw [Mem.set_at, Buf.mem, Buf.mem, List.getD_eq_getElem?_getD, List.getD_eq_getElem?_getD,
    List.getElem?_set]
  by_cases hx : x = i
  · rw [if_pos hx, if_pos hx.symm, if_pos h]
    rfl
  · rw [if_neg hx, if_neg (Ne.symm hx)]

theorem write_view (h : index < 8 * m.length) (value : Bool) :
    ∃ m', Mapping.write m index value = some m' ∧ m'.length = m.length ∧
      m'.mem = Mmap.write m.mem index value := by
  have hlt : index / 8 < m.length := by omega
  have hbyte := Buf.getElem?_mem hlt
  cases value with
  | true =>
    refine ⟨_, by rw [Mapping.write, hbyte]; rfl, List.length_set, ?_⟩
    rw [or_mask, mem_set hlt]
    rfl
  | false =>
    refine ⟨_, by rw [Mapping.write, hbyte]; rfl, List.length_set, ?_⟩
    rw [and_mask, mem_set hlt]
    rfl

end View

/-- The bit for `j` after these calls. -/
def lastWritten (j : Nat) (writes : List (Nat × Bool)) (initial : Bool) : Bool :=
  writes.foldl (fun v w => if w.1 = j then w.2 else v) initial

theorem lastWritten_of_not_mem {j : Nat} {writes : List (Nat × Bool)} (h : ∀ w ∈ writes, w.1 ≠ j)
    (initial : Bool) : lastWritten j writes initial = initial := by
  induction writes with
  | nil => rfl
  | cons w writes ih =>
    rw [lastWritten, List.foldl_cons, if_neg (h w (by simp))]
    exact ih fun w' hw' => h w' (by simp [hw'])

theorem lastWritten_append (j : Nat) (before : List (Nat × Bool)) (v : Bool)
    {after : List (Nat × Bool)} (h : ∀ w ∈ after, w.1 ≠ j) (initial : Bool) :
    lastWritten j (before ++ (j, v) :: after) initial = v := by
  rw [lastWritten, List.foldl_append, List.foldl_cons, if_pos rfl]
  exact lastWritten_of_not_mem h v

/-- The mapping after a run of writes inside it. -/
theorem run_writes {writes : List (Nat × Bool)} {m : Buf}
    (h : ∀ w ∈ writes, w.1 < 8 * m.length) :
    ∃ m', run Mapping.step m writes = some m' ∧ m'.length = m.length ∧
      ∀ j, Mmap.read m'.mem j = lastWritten j writes (Mmap.read m.mem j) := by
  induction writes generalizing m with
  | nil => exact ⟨m, rfl, rfl, fun _ => rfl⟩
  | cons w writes ih =>
    obtain ⟨m1, hw, hlen, hmem⟩ := write_view (h w (by simp)) w.2
    obtain ⟨m', hrun, hlen', hbits⟩ := ih fun w' hw' => by
      rw [hlen]
      exact h w' (by simp [hw'])
    have hstep : Mapping.step m w = some m1 := hw
    refine ⟨m', by rw [run_cons hstep]; exact hrun, hlen'.trans hlen, fun j => ?_⟩
    rw [hbits, hmem, Mmap.read_write, lastWritten, lastWritten, List.foldl_cons]
    simp only [eq_comm]

/-! ## Room for every address -/

/-- The sizes `apnic::init` requests. -/
def ipv4Size : Nat := 1024 * 1024 * 64

def ipv6Size : Nat := 1024 * 1024 * 1024 * 3

/-- The bit of a bitmap is in its mapping. -/
def InRoom : Nat ⊕ Nat → Prop
  | .inl i => i < 8 * ipv4Size
  | .inr i => i < 8 * ipv6Size

theorem bit_inRoom (a : Address) : InRoom a.bit := by
  cases a with
  | v4 ip =>
    have hlt := (ip &&& 0xFFFFFF#32).isLt
    simp only [Address.bit, InRoom, ipv4Size, BitVec.toNat_ushiftRight, Nat.shiftRight_eq_div_pow]
    omega
  | v6 bytes =>
    have hlt := (bytes.read32 0).isLt
    simp only [Address.bit, InRoom, ipv6Size]
    omega

/-- A line sets the bit of the address in it, or none. -/
theorem syncLine_marks {fromString : Text → Option Address} {b b' : Bitmaps} {line : Text}
    (h : syncLine fromString b line = some b') :
    b' = b ∨ ∃ ip a, fromString ip = some a ∧ b' = b.mark a.bit := by
  unfold syncLine at h
  split at h
  · cases h
    exact .inl rfl
  · simp only at h
    split at h
    · cases h
    · split at h
      · split at h
        · rename_i a ha
          cases h
          exact .inr ⟨_, _, ha, rfl⟩
        · cases h
      · split at h
        · rename_i bytes ha
          cases h
          exact .inr ⟨_, _, ha, rfl⟩
        · cases h
      · cases h
        exact .inl rfl

/-- In a mapping of any size a read returns what was last written there, whatever was written
elsewhere, and the bits `sync` sets and `is_cn` reads are in the mappings of `init`. -/
theorem bitmap_is_set :
    (∀ (m : Buf) (writes : List (Nat × Bool)), (∀ w ∈ writes, w.1 < 8 * m.length) →
      ∃ m', run Mapping.step m writes = some m' ∧ m'.length = m.length ∧
        ∀ j, j < 8 * m.length →
          (∀ before v after, writes = before ++ (j, v) :: after → (∀ w ∈ after, w.1 ≠ j) →
            Mapping.read m' j = some v) ∧
          ((∀ w ∈ writes, w.1 ≠ j) →
            Mapping.read m' j = (m[j / 8]?).map fun b => b.getLsbD (j % 8))) ∧
    (∀ (fromString : Text → Option Address) b b' line, syncLine fromString b line = some b' →
      b' = b ∨ ∃ ip a, fromString ip = some a ∧ b' = b.mark a.bit) ∧
    (∀ b a, isCn b a = b.holds a.bit) ∧
    ∀ a : Address, InRoom a.bit := by
  refine ⟨fun m writes hw => ?_, fun _ _ _ _ h => syncLine_marks h, isCn_eq, bit_inRoom⟩
  obtain ⟨m', hrun, hlen, hbits⟩ := run_writes hw
  refine ⟨m', hrun, hlen, fun j hj => ⟨fun before v after hsplit hafter => ?_, fun hno => ?_⟩⟩
  · rw [read_view (by rw [hlen]; exact hj), hbits, hsplit, lastWritten_append j before v hafter]
  · have hlt : j / 8 < m.length := by omega
    rw [read_view (by rw [hlen]; exact hj), hbits, lastWritten_of_not_mem hno, Mmap.read_eq,
      Buf.getElem?_mem hlt, Option.map_some]

/-- Two bytes, in which one bit is set and cleared again and one is cleared. -/
theorem bitmap_is_set_two :
    ∃ m', run Mapping.step [0x00, 0xff] [(3, true), (9, false), (3, false)] = some m' ∧
      m'.length = 2 ∧ Mapping.read m' 3 = some false :=
  have ⟨m', hrun, hlen, hread⟩ := bitmap_is_set.1 [0x00, 0xff] [(3, true), (9, false), (3, false)]
    (by simp)
  ⟨m', hrun, hlen, (hread 3 (by simp)).1 [(3, true), (9, false)] false [] rfl (by simp)⟩

end Apnic
end Xsky
