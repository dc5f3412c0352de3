import Xsky.Apnic.Records

/-!
# Apnic.Member

What `is_cn` answers after a list of whole records, and the ranges the records give.

`sync` marks the start of a range and not the rest of it, and the IPv4 index leaves out the first
octet. `isCn_correct_iff`: the answer is right for an address after exactly the lists where neither
shows. `isCn_wrong` has an address outside every range that is taken for one of CN, and one inside
a range that is not.
-/

namespace Xsky
namespace Apnic

open Kit

/-- The number in the first `n` bytes of an address, the most significant one first. -/
def netNat (a : Mem) : Nat → Nat
  | 0 => 0
  | n + 1 => 2 ^ 8 * netNat a n + (a n).toNat

def decimal (t : Text) : Nat := t.foldl (fun n c => 10 * n + (c.toNat - '0'.toNat)) 0

variable {fromString : Text → Option Address}

/-- The record is one of CN, and the address' /24 (IPv6: /32) meets its range: `value` addresses
from the start on (IPv6: those that share its first `value` bits). -/
def Record.Meets (r : Record fromString) : Address → Prop
  | .v4 ip => ∃ s, r.listed = some (.v4 s) ∧
      ∃ x, s.toNat ≤ x ∧ x < s.toNat + decimal r.value ∧ x / 2 ^ 8 = ip.toNat / 2 ^ 8
  | .v6 ip => ∃ s, r.listed = some (.v6 s) ∧
      ∃ x, x / 2 ^ (128 - decimal r.value) = netNat s 16 / 2 ^ (128 - decimal r.value) ∧
        x / 2 ^ 96 = netNat ip 4

/-- The record is one of CN and starts in a /24 with the address' second and third octet (IPv6: in
the address' /32). -/
def Record.StartsLike (r : Record fromString) : Address → Prop
  | .v4 ip => ∃ s, r.listed = some (.v4 s) ∧
      s.toNat / 2 ^ 8 % 2 ^ 16 = ip.toNat / 2 ^ 8 % 2 ^ 16
  | .v6 ip => ∃ s, r.listed = some (.v6 s) ∧ netNat s 4 = netNat ip 4

/-- When a range meets the address' block, a record starts like it; and an IPv4 record that starts
like it, perhaps in another /8, is not the only reason to take the address for one of CN. -/
structure StartsTell (rs : List (Record fromString)) (a : Address) : Prop where
  starts : ∀ r ∈ rs, r.Meets a → ∃ r' ∈ rs, r'.StartsLike a
  meets : ∀ ip, a = .v4 ip → ∀ r ∈ rs, r.StartsLike a → ∃ r' ∈ rs, r'.Meets a

theorem netNat_four (a : Mem) :
    netNat a 4 = 2 ^ 24 * (a 0).toNat + 2 ^ 16 * (a 1).toNat + 2 ^ 8 * (a 2).toNat +
      (a 3).toNat := by
  simp only [netNat]
  omega

theorem netNat_div (a : Mem) (n k : Nat) : netNat a (n + k) / 2 ^ (8 * k) = netNat a n := by
  induction k with
  | zero => simp
  | succ k ih =>
    have hbyte := (a (n + k)).isLt
    rw [show 8 * (k + 1) = 8 + 8 * k by omega, Nat.pow_add, ← Nat.div_div_eq_div_mul,
      ← Nat.add_assoc]
    simp only [netNat]
    rw [show (2 ^ 8 * netNat a (n + k) + (a (n + k)).toNat) / 2 ^ 8 = netNat a (n + k) by omega, ih]

/-- The word at the start of an address and its first 32 bits determine each other. -/
theorem read32_eq_iff (a b : Mem) :
    (a.read32 0).toNat = (b.read32 0).toNat ↔ netNat a 4 = netNat b 4 := by
  rw [netNat_four, netNat_four]
  simp only [Mem.read32, BitVec.toNat_ofNat, Nat.zero_add]
  have h0 := (a 0).isLt
  have h1 := (a 1).isLt
  have h2 := (a 2).isLt
  have h3 := (a 3).isLt
  have g0 := (b 0).isLt
  have g1 := (b 1).isLt
  have g2 := (b 2).isLt
  have g3 := (b 3).isLt
  rw [Nat.mod_eq_of_lt (by omega), Nat.mod_eq_of_lt (by omega)]
  constructor
  · intro h
    have e0 : (a 0).toNat = (b 0).toNat := by omega
    have e1 : (a 1).toNat = (b 1).toNat := by omega
    have e2 : (a 2).toNat = (b 2).toNat := by omega
    have e3 : (a 3).toNat = (b 3).toNat := by omega
    rw [e0, e1, e2, e3]
  · intro h
    have e3 : (a 3).toNat = (b 3).toNat := by omega
    have e2 : (a 2).toNat = (b 2).toNat := by omega
    have e1 : (a 1).toNat = (b 1).toNat := by omega
    have e0 : (a 0).toNat = (b 0).toNat := by omega
    rw [e0, e1, e2, e3]

theorem ipv4Index (a : BitVec 32) :
    ((a &&& 0xFFFFFF#32) >>> 8).toNat = a.toNat / 2 ^ 8 % 2 ^ 16 := by
  have hmask : a.toNat &&& 16777215 = a.toNat % 2 ^ 24 := Nat.and_two_pow_sub_one_eq_mod _ 24
  rw [BitVec.toNat_ushiftRight, BitVec.toNat_and, BitVec.toNat_ofNat, Nat.shiftRight_eq_div_pow,
    show 0xFFFFFF % 2 ^ 32 = 16777215 from rfl, hmask]
  omega

/-- The bit `is_cn` reads is the one a record sets. -/
theorem startsLike_iff (r : Record fromString) (a : Address) :
    r.StartsLike a ↔ ∃ s, r.listed = some s ∧ a.bit = s.bit := by
  cases a with
  | v4 ip =>
    constructor
    · rintro ⟨s, hs, heq⟩
      exact ⟨.v4 s, hs, by rw [Address.bit, Address.bit, ipv4Index, ipv4Index, heq]⟩
    · rintro ⟨s, hs, heq⟩
      cases s with
      | v4 s =>
        rw [Address.bit, Address.bit, ipv4Index, ipv4Index, Sum.inl.injEq] at heq
        exact ⟨s, hs, heq.symm⟩
      | v6 s => cases heq
  | v6 ip =>
    constructor
    · rintro ⟨s, hs, heq⟩
      exact ⟨.v6 s, hs, by rw [Address.bit, Address.bit, (read32_eq_iff ip s).mpr heq.symm]⟩
    · rintro ⟨s, hs, heq⟩
      cases s with
      | v4 s => cases heq
      | v6 s =>
        rw [Address.bit, Address.bit, Sum.inr.injEq] at heq
        exact ⟨s, hs, ((read32_eq_iff ip s).mp heq).symm⟩

/-- The text of a list of records. -/
def stream (rs : List (Record fromString)) : Text := Text.unlines (rs.map Record.line)

theorem isCn_sync (rs : List (Record fromString)) :
    ∃ b, drain fromString ((stream rs).length + 1) .zero (stream rs) = some (b, []) ∧
      ∀ a, isCn b a = true ↔ ∃ r ∈ rs, r.StartsLike a := by
  obtain ⟨b, hb, hbits⟩ := syncLines_records rs .zero
  refine ⟨b, ?_, fun a => ?_⟩
  · have hlines : ∀ l ∈ rs.map Record.line, l ≠ [] ∧ '\n' ∉ l := by
      intro l hl
      obtain ⟨r, -, rfl⟩ := List.mem_map.mp hl
      exact ⟨r.line_ne_nil, r.newline_not_mem⟩
    have hdrain := @drain_lines fromString _ [] hlines (by simp)
      ((stream rs).length + 1) .zero (by rw [List.append_nil]; exact Nat.lt_succ_self _)
    rw [List.append_nil, if_pos rfl, List.append_nil, hb] at hdrain
    exact hdrain
  · rw [isCn_eq, hbits, Bitmaps.holds_zero]
    simp only [Bool.false_eq_true, false_or, startsLike_iff]

/-- An IPv6 record meets the /32 it starts in, whatever its prefix. -/
theorem meets_of_startsLike_v6 {r : Record fromString} {ip : Mem} (h : r.StartsLike (.v6 ip)) :
    r.Meets (.v6 ip) := by
  obtain ⟨s, hs, heq⟩ := h
  exact ⟨s, hs, netNat s 16, rfl, by rw [← heq]; exact netNat_div s 4 12⟩

/-- The answers are right for an address if and only if the starts of the records tell. -/
theorem isCn_correct_iff (rs : List (Record fromString)) :
    ∃ b, drain fromString ((stream rs).length + 1) .zero (stream rs) = some (b, []) ∧
      ∀ a, (isCn b a = true ↔ ∃ r ∈ rs, r.Meets a) ↔ StartsTell rs a := by
  obtain ⟨b, hb, hcn⟩ := isCn_sync rs
  refine ⟨b, hb, fun a => ?_⟩
  rw [hcn]
  constructor
  · intro h
    exact ⟨fun r hr hm => h.mpr ⟨r, hr, hm⟩, fun _ _ r hr hs => h.mp ⟨r, hr, hs⟩⟩
  · rintro ⟨hstarts, hmeets⟩
    refine ⟨?_, fun ⟨r, hr, hm⟩ => hstarts r hr hm⟩
    rintro ⟨r, hr, hs⟩
    cases a with
    | v4 ip => exact hmeets ip rfl r hr hs
    | v6 ip => exact ⟨r, hr, meets_of_startsLike_v6 hs⟩

/-- `from_string` on one address text. -/
def readOne (t : Text) : Option Address :=
  if t = "1.0.1.0".toList then some (.v4 0x01000100#32) else none

/-- `apnic|CN|ipv4|1.0.1.0|512|20110414|allocated`. -/
def twoBlocks : Record readOne where
  cc := "CN".toList
  resource := .ipv4 0x01000100#32
  start := "1.0.1.0".toList
  value := "512".toList
  date := "20110414".toList
  status := "allocated".toList
  cc_chars := by simp
  start_chars := List.all_eq_true.mp rfl
  value_chars := List.all_eq_true.mp rfl
  date_chars := List.all_eq_true.mp rfl
  status_chars := List.all_eq_true.mp rfl
  start_reads := by
    intro a ha
    cases ha
    rfl

/-- After the one record for 1.0.1.0 to 1.0.2.255, 9.0.1.5 is taken for an address of CN and
1.0.2.7 is not. -/
theorem isCn_wrong :
    ∃ b, drain readOne ((stream [twoBlocks]).length + 1) .zero (stream [twoBlocks]) =
        some (b, []) ∧
      (isCn b (.v4 0x09000105#32) = true ∧ ¬ twoBlocks.Meets (.v4 0x09000105#32)) ∧
      (isCn b (.v4 0x01000207#32) = false ∧ twoBlocks.Meets (.v4 0x01000207#32)) := by
  obtain ⟨b, hb, hcn⟩ := isCn_sync [twoBlocks]
  refine ⟨b, hb, ⟨?_, ?_⟩, ?_, ?_⟩
  · exact (hcn _).mpr ⟨twoBlocks, by simp, 0x01000100#32, rfl, by decide⟩
  · rintro ⟨s, hs, x, hle, hlt, hx⟩
    cases hs
    have hvalue : decimal twoBlocks.value = 512 := rfl
    rw [hvalue] at hlt
    simp only [BitVec.toNat_ofNat] at hle hlt hx
    omega
  · rw [← Bool.not_eq_true, hcn]
    rintro ⟨r, hr, hs⟩
    obtain rfl := List.mem_singleton.mp hr
    obtain ⟨s, hs, heq⟩ := hs
    cases hs
    revert heq
    decide
  · exact ⟨0x01000100#32, rfl, 0x01000200, by decide, by decide, by decide⟩

end Apnic
end Xsky
