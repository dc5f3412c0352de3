import Xsky.Sky.Checksums

/-!
# Sky.Payload

`xor_data_sky` on its own: what a second call makes of the bytes, and which bytes a call touches.

The loop steps through the powers of 8 below the length, and combines the four bytes from each on
with the length.

* `obfuscation_undone` — two calls leave the memory as it was, and the hook of the server leaves the
  payload that the hook of the route was given.
* `touches_iff`        — the loop keeps to the payload exactly when the payload does not end inside
  one of these groups of four.
-/

namespace Xsky
namespace Sky

open Kit

/-! ## Twice -/

theorem scrambled_scrambled (bs : List Byte) : scrambled (scrambled bs) = bs := by
  apply List.ext_getElem
  · rw [scrambled_length, scrambled_length]
  · intro i h1 h2
    simp only [scrambled, List.getElem_mapIdx, List.length_mapIdx]
    rw [BitVec.xor_assoc, BitVec.xor_self, BitVec.xor_zero]

/-- A byte in a window is combined twice with the same byte of the length. -/
theorem xorDataSky_twice {length : Int} (hlen : length ≤ 2 ^ 30) (m : Mem) (data : Nat) :
    ∃ m', xorDataSky m data length = some m' ∧ xorDataSky m' data length = some m := by
  obtain ⟨m1, h1, hout1, hin1⟩ := xorDataSky_spec m data hlen
  obtain ⟨m2, h2, hout2, hin2⟩ := xorDataSky_spec m1 data hlen
  refine ⟨m1, h1, ?_⟩
  rw [h2]
  congr 1
  funext x
  by_cases hwin : ∃ j, InWindow data length 1 j x
  · obtain ⟨j, hj⟩ := hwin
    rw [hin2 j x hj, hin1 j x hj, BitVec.xor_assoc, BitVec.xor_self, BitVec.xor_zero]
  · have hno : ∀ j, ¬ InWindow data length 1 j x := fun j hj => hwin ⟨j, hj⟩
    rw [hout2 x hno, hout1 x hno]

/-- The payload comes back at another address as well, whatever is around it there. -/
theorem xorDataSky_back {n : Nat} (hn : n ≤ 2 ^ 30) {m m1 m2 : Mem} {data data2 : Nat}
    (h1 : xorDataSky m data n = some m1) (hbytes : m2.bytes data2 n = m1.bytes data n) :
    ∃ m3, xorDataSky m2 data2 n = some m3 ∧ m3.bytes data2 n = m.bytes data n := by
  obtain ⟨m', h', -, hscrambled⟩ := xorDataSky_bytes m data hn
  rw [h1] at h'
  cases h'
  obtain ⟨m3, h3, -, hback⟩ := xorDataSky_bytes m2 data2 hn
  refine ⟨m3, h3, ?_⟩
  rw [hback, hbytes, hscrambled, scrambled_scrambled]

/-- What the end of a hook does to the payload. -/
theorem finish_payload (k : Kernel) {skb : SkBuff} (h : skb.Tcp) :
    ∃ m c, finish k skb = some { skb with mem := m, csum := c } ∧
      m.bytes (skb.tcp + skb.doff * 4) skb.payloadLen = scrambled skb.payload := by
  have hlt := h.len_lt
  have hdoff := h.doff_ge
  have htcp := skb.tcp_eq
  have hihl := h.ihl_ge
  have hpay : skb.payloadLen ≤ 2 ^ 30 := by
    rw [SkBuff.payloadLen]
    omega
  have hptr := h.headed.dataPtr
  obtain ⟨m0, hm0, -, hbytes⟩ := xorDataSky_bytes skb.mem skb.dataPtr hpay
  rw [← h.dataLen] at hm0
  obtain ⟨m, c, hm, hat⟩ := finish_other k hm0
  refine ⟨m, c, hm, ?_⟩
  rw [SkBuff.payload, ← hptr, ← hbytes]
  -- both checksums lie before the payload
  exact Mem.bytes_congr fun i _ => hat _ (by rw [h.network]; omega) (by rw [h.transport]; omega)

/-- The loop ends without overflow and undoes itself: over the same bytes, over the same payload
somewhere else, and as both hooks run it over the payload of a packet. -/
theorem obfuscation_undone {length : Int} (hlen : length ≤ 2 ^ 30) (m : Mem) (data : Nat) :
    (∃ m', xorDataSky m data length = some m' ∧ xorDataSky m' data length = some m ∧
      ∀ m2 data2, m2.bytes data2 length.toNat = m'.bytes data length.toNat →
        ∃ m3, xorDataSky m2 data2 length = some m3 ∧
          m3.bytes data2 length.toNat = m.bytes data length.toNat) ∧
    ∀ (k k' : Kernel) (skb skb' out : SkBuff), skb.Tcp → skb'.Tcp → finish k skb = some out →
      skb'.payload = out.mem.bytes (skb.tcp + skb.doff * 4) skb.payloadLen →
      ∃ out', finish k' skb' = some out' ∧
        out'.mem.bytes (skb'.tcp + skb'.doff * 4) skb'.payloadLen = skb.payload := by
  refine ⟨?_, fun k k' skb skb' out htcp htcp' hout hsame => ?_⟩
  · obtain ⟨m', h1, h2⟩ := xorDataSky_twice hlen m data
    refine ⟨m', h1, h2, fun m2 data2 hbytes => ?_⟩
    by_cases hneg : length < 0
    · obtain ⟨m3, h3, -⟩ := xorDataSky_twice hlen m2 data2
      have h0 : length.toNat = 0 := by omega
      exact ⟨m3, h3, by rw [h0]; rfl⟩
    · obtain ⟨n, rfl⟩ : ∃ n : Nat, length = n := ⟨length.toNat, by omega⟩
      exact xorDataSky_back (by omega) h1 hbytes
  · obtain ⟨m1, c1, h1, hbytes1⟩ := finish_payload k htcp
    obtain ⟨m2, c2, h2, hbytes2⟩ := finish_payload k' htcp'
    rw [h1] at hout
    cases hout
    refine ⟨_, h2, ?_⟩
    rw [hbytes2, hsame, hbytes1, scrambled_scrambled]

theorem obfuscation_undone_request :
    (∃ m', xorDataSky (fun _ => 0x41) 0 100 = some m' ∧
      xorDataSky m' 0 100 = some (fun _ => 0x41) ∧
      ∀ m2 data2, m2.bytes data2 100 = m'.bytes 0 100 →
        ∃ m3, xorDataSky m2 data2 100 = some m3 ∧
          m3.bytes data2 100 = Mem.bytes (fun _ => 0x41) 0 100) :=
  (@obfuscation_undone 100 (by omega) (fun _ => 0x41) 0).1

/-! ## The bytes touched -/

/-- The addresses of the bytes that `*(int *)( data + i ) ^= length` reads and writes, in the
iterations from `i` on. -/
def xorLoopAccesses (data : Nat) (length : Int) : Nat → Nat → List Nat
  | 0, _ => []
  | fuel + 1, i =>
    if i < length then
      [data + i, data + i + 1, data + i + 2, data + i + 3] ++
        xorLoopAccesses data length fuel (i * 8)
    else []

def xorDataSkyAccesses (data : Nat) (length : Int) : List Nat := xorLoopAccesses data length 11 1

theorem xorLoopAccesses_iff {data : Nat} {length : Int} (n : Nat) {i : Nat} (hi : 1 ≤ i)
    (hlen : length ≤ (i * 8 ^ n : Nat)) (x : Nat) :
    x ∈ xorLoopAccesses data length (n + 1) i ↔ ∃ j, InWindow data length i j x := by
  have hend : ∀ i, ¬ (i : Nat) < length → ¬ ∃ j, InWindow data length i j x :=
    fun i hge ⟨j, hj⟩ => hge hj.lt
  induction n generalizing i with
  | zero =>
    rw [Nat.pow_zero, Nat.mul_one] at hlen
    have hge : ¬ (i : Int) < length := by omega
    rw [xorLoopAccesses, if_neg hge]
    simp only [List.not_mem_nil, hend i hge]
  | succ n ih =>
    by_cases hlt : (i : Int) < length
    · have hlen' : length ≤ (i * 8 * 8 ^ n : Nat) := by
        rw [Nat.mul_assoc, Nat.mul_comm 8, ← Nat.pow_succ]
        exact hlen
      have hrest : x ∈ xorLoopAccesses data length (n + 1) (i * 8) ↔
          ∃ j, InWindow data length i (j + 1) x := by
        simp only [← InWindow.succ]
        exact ih (by omega) hlen'
      rw [xorLoopAccesses, if_pos hlt, List.mem_append, hrest]
      constructor
      · rintro (hfour | ⟨j, hj⟩)
        · simp only [List.mem_cons, List.not_mem_nil, or_false] at hfour
          exact ⟨0, by simpa using hlt, by omega, by omega⟩
        · exact ⟨j + 1, hj⟩
      · rintro ⟨j, hj⟩
        cases j with
        | zero =>
          obtain ⟨-, hlow, hhigh⟩ := hj
          left
          simp only [List.mem_cons, List.not_mem_nil, or_false]
          omega
        | succ j => exact .inr ⟨j, hj⟩
    · rw [xorLoopAccesses, if_neg hlt]
      simp only [List.not_mem_nil, hend i hlt]

/-- A call keeps to the `n` bytes at `data`, and those behind them stay as they are. -/
def TouchesOnlyPayload (m : Mem) (data n : Nat) : Prop :=
  (∀ x ∈ xorDataSkyAccesses data n, data ≤ x ∧ x < data + n) ∧
    ∃ m', xorDataSky m data n = some m' ∧ ∀ x, data + n ≤ x → m' x = m x

section Touched

variable {length : Int} {data n : Nat}

theorem xorDataSkyAccesses_iff (hlen : length ≤ 2 ^ 30) (x : Nat) :
    x ∈ xorDataSkyAccesses data length ↔ ∃ j, InWindow data length 1 j x :=
  xorLoopAccesses_iff 10 (Nat.le_refl 1) (by omega) x

/-- A byte that is not touched stays as it is. -/
theorem xorDataSky_frame (hlen : length ≤ 2 ^ 30) (m : Mem) :
    ∃ m', xorDataSky m data length = some m' ∧
      ∀ x, x ∉ xorDataSkyAccesses data length → m' x = m x := by
  obtain ⟨m', hm', hout, -⟩ := xorDataSky_spec m data hlen
  refine ⟨m', hm', fun x hx => hout x fun j hj => ?_⟩
  exact hx ((xorDataSkyAccesses_iff hlen x).mpr ⟨j, hj⟩)

/-- The byte behind a payload that ends in a window. -/
theorem overrun (hn : n ≤ 2 ^ 30) {j : Nat} (hlow : 8 ^ j < n) (hhigh : n < 8 ^ j + 4) :
    data + n ∈ xorDataSkyAccesses data n := by
  refine (xorDataSkyAccesses_iff (by omega) _).mpr ⟨j, ?_⟩
  simp only [InWindow, Nat.one_mul]
  omega

theorem accesses_within (hn : n ≤ 2 ^ 30) (h : ¬ ∃ j, 8 ^ j < n ∧ n < 8 ^ j + 4) :
    ∀ x ∈ xorDataSkyAccesses data n, data ≤ x ∧ x < data + n := by
  intro x hx
  obtain ⟨j, hj⟩ := (xorDataSkyAccesses_iff (by omega) x).mp hx
  have hafter := hj.data_lt
  obtain ⟨hlt, -, hhigh⟩ := hj
  have hend : ¬ (8 ^ j < n ∧ n < 8 ^ j + 4) := fun hj => h ⟨j, hj⟩
  rw [Nat.one_mul] at hlt hhigh
  have hlt' : 8 ^ j < n := Int.ofNat_lt.mp hlt
  omega

end Touched

/-- The loop stays inside a payload that ends nowhere between a power of 8 and the fourth byte from
it on, and only inside such a one. -/
theorem touches_iff (m : Mem) (data : Nat) {n : Nat} (hn : n ≤ 65535) :
    TouchesOnlyPayload m data n ↔ ¬ ∃ j, 8 ^ j < n ∧ n < 8 ^ j + 4 := by
  constructor
  · rintro ⟨hinside, -⟩ ⟨j, hlow, hhigh⟩
    have := hinside _ (overrun (by omega) hlow hhigh)
    omega
  · intro hend
    have hinside := @accesses_within data n (by omega) hend
    obtain ⟨m', hm', hkept⟩ := @xorDataSky_frame n data (by omega) m
    refine ⟨hinside, m', hm', fun x hx => hkept x fun hmem => ?_⟩
    have := hinside x hmem
    omega

theorem touches_iff_twelve :
    TouchesOnlyPayload (fun _ => 0) 0 12 ↔ ¬ ∃ j, 8 ^ j < 12 ∧ 12 < 8 ^ j + 4 :=
  touches_iff (fun _ => 0) 0 (by omega)

/-- Of a payload of 513 bytes the last window takes three that are not its own, and the first of
these changes. -/
theorem payload_overrun :
    ¬ TouchesOnlyPayload (fun _ => 0) 0 513 ∧
      (xorDataSky (fun _ => 0) 0 513).map (fun m => m 513) = some 2 := by
  refine ⟨?_, rfl⟩
  rintro ⟨hinside, -⟩
  have hlast := hinside _ (overrun (j := 3) (by omega) (by omega) (by omega))
  omega

end Sky
end Xsky
