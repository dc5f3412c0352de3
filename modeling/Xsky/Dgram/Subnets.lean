import Mathlib.Data.List.Induction
import Xsky.Dgram.Configured

/-!
# Dgram.Subnets

Which addresses are of the subnet, after any calls of the device.

The subnet requests are read off the calls alone: `takenSubnet` is the request a call makes, if it
is one that counts, and `lastTaken` the last of them for a family. `subnets_exact`: after any run,
`xsky_is_subnet` compares exactly the prefix last asked for.
-/

namespace Xsky
namespace Dgram

open Kit

/-! ## What is asked for -/

def XskySubnet.family (t : XskySubnet) : Bool := t.isIpv6 ≠ 0

/-- The subnet a request asks for: it can be read whole, and the prefix is one of its family. -/
def takenSubnet (arg : Nat → Option Byte) : Option XskySubnet :=
  let t : XskySubnet := ⟨fun i => (arg i).getD 0, (arg 16).getD 0, (arg 17).getD 0⟩
  if (∀ i ∈ List.range 18, (arg i).isSome) ∧ t.prefixLen.toNat ≤ 8 * addrLen t.family then some t
  else none

def DevCall.taken : DevCall → Option XskySubnet
  | .ioctl cmd arg => if cmd = iocSetUdpProxySubnet then takenSubnet arg else none
  | _ => none

/-- Before any request, the subnet of all addresses. -/
def lastTaken (v6 : Bool) (calls : List DevCall) : XskySubnet :=
  ((calls.filterMap DevCall.taken).filter fun t => t.family = v6).getLast?.getD ⟨fun _ => 0, 0, 0⟩

/-- The first `p` bits agree. -/
def SamePrefix (p : Nat) (a b : Mem) : Prop := ∀ k, k < p → addrBit a k = addrBit b k

/-- The places of `buf` that `calc_subnet` writes: those it clears, then those it copies. -/
def calcSubnetWrites (prefixLen : Byte) (isIpv6 : Bool) : List Nat :=
  let a := prefixLen.toNat / 8
  List.range (addrLen isIpv6) ++ List.range a ++ if prefixLen.toNat % 8 = 0 then [] else [a]

structure SubnetsExact (calls : List DevCall) (dev : Device) : Prop where
  decided : ∀ v6 ipaddress, xskyIsSubnet dev ipaddress v6 = true ↔
    SamePrefix (lastTaken v6 calls).prefixLen.toNat ipaddress (lastTaken v6 calls).address
  rejected : ∀ arg, takenSubnet arg = none →
    chrIoctl dev iocSetUdpProxySubnet arg = (-einval, dev)
  accepted : ∀ arg t, takenSubnet arg = some t →
    ∃ t', chrIoctl dev iocSetUdpProxySubnet arg =
      (0, if t.family then { dev with subnet6 := t', isSetSubnet6 := true }
        else { dev with subnet := t', isSetSubnet := true })
  within : ∀ prefixLen v6, prefixLen.toNat ≤ 8 * addrLen v6 →
    (∀ i ∈ calcSubnetWrites prefixLen v6, i < addrLen v6) ∧
    ∀ buf ipaddress i, i ∉ calcSubnetWrites prefixLen v6 →
      calcSubnet buf ipaddress prefixLen v6 i = buf i

/-! ## One request -/

theorem calcSubnetWrites_lt {prefixLen : Byte} {v6 : Bool}
    (h : prefixLen.toNat ≤ 8 * addrLen v6) :
    ∀ i ∈ calcSubnetWrites prefixLen v6, i < addrLen v6 := by
  intro i hi
  unfold calcSubnetWrites at hi
  rw [List.mem_append, List.mem_append, List.mem_range, List.mem_range] at hi
  rcases hi with (hi | hi) | hi
  · exact hi
  · omega
  · split at hi
    · cases hi
    · rw [List.mem_singleton] at hi
      omega

theorem calcSubnet_other (buf ipaddress : Mem) {prefixLen : Byte} {v6 : Bool} {i : Nat}
    (h : i ∉ calcSubnetWrites prefixLen v6) : calcSubnet buf ipaddress prefixLen v6 i = buf i := by
  unfold calcSubnetWrites at h
  rw [List.mem_append, List.mem_append, List.mem_range, List.mem_range, not_or, not_or] at h
  obtain ⟨⟨hclear, hcopy⟩, hpart⟩ := h
  have hfill : ((buf.fill 0 (addrLen v6) fun _ => 0).fill 0 (prefixLen.toNat / 8) ipaddress) i =
      buf i := by
    rw [Mem.fill_at, if_neg (by omega), Mem.fill_at, if_neg (by omega)]
  unfold calcSubnet
  split
  · exact hfill
  · rename_i hb
    rw [if_neg hb, List.mem_singleton] at hpart
    rw [Mem.set_at, if_neg hpart, hfill]

theorem chrIoctl_subnet (dev : Device) (arg : Nat → Option Byte) :
    chrIoctl dev iocSetUdpProxySubnet arg = xskySetUdpProxySubnet dev arg := by
  unfold chrIoctl
  rw [if_neg (by decide), if_pos rfl]

/-- A request that counts sets the subnet of its family; any other fails. -/
theorem xskySetUdpProxySubnet_taken (dev : Device) (arg : Nat → Option Byte) :
    xskySetUdpProxySubnet dev arg =
      match takenSubnet arg with
      | none => (-einval, dev)
      | some t => (0,
          if t.family then
            { dev with
              subnet6 := ⟨calcSubnet dev.subnet6.address t.address t.prefixLen true,
                t.prefixLen, t.isIpv6⟩
              isSetSubnet6 := true }
          else
            { dev with
              subnet := ⟨calcSubnet dev.subnet.address t.address t.prefixLen false,
                t.prefixLen, t.isIpv6⟩
              isSetSubnet := true }) := by
  unfold xskySetUdpProxySubnet copyFromUser takenSubnet XskySubnet.family addrLen
  simp only [List.all_eq_true]
  by_cases hall : ∀ i ∈ List.range 18, (arg i).isSome = true
  · simp only [if_pos hall, and_iff_right hall]
    generalize (arg 16).getD 0 = p
    generalize (arg 17).getD 0 = f
    by_cases hfam : f = 0#8
    · by_cases hp : p.toNat ≤ 32
      · simp [hfam, hp, Nat.not_lt.mpr hp]
      · simp [hfam, hp, Nat.lt_of_not_le hp]
    · by_cases hp : p.toNat ≤ 128
      · simp [hfam, hp, Nat.not_lt.mpr hp]
      · simp [hfam, hp, Nat.lt_of_not_le hp]
  · simp only [hall, false_and, if_false]

/-! ## Runs -/

/-- The subnet the device keeps is the one asked for, as far as the addresses of the family go. -/
def Keeps (kept asked : XskySubnet) (v6 : Bool) : Prop :=
  asked.prefixLen.toNat ≤ 8 * addrLen v6 ∧ kept.prefixLen = asked.prefixLen ∧
    ∀ k, k < 8 * addrLen v6 →
      addrBit kept.address k = (decide (k < asked.prefixLen.toNat) && addrBit asked.address k)

theorem takenSubnet_fits {arg : Nat → Option Byte} {t : XskySubnet}
    (h : takenSubnet arg = some t) : t.prefixLen.toNat ≤ 8 * addrLen t.family := by
  unfold takenSubnet at h
  simp only at h
  split at h
  · rename_i hok
    cases h
    exact hok.2
  · cases h

theorem keeps_taken {dev : Device} {arg : Nat → Option Byte} {t : XskySubnet}
    (h : takenSubnet arg = some t) :
    Keeps ((chrIoctl dev iocSetUdpProxySubnet arg).2.subnetOf t.family) t t.family := by
  refine ⟨takenSubnet_fits h, ?_⟩
  rw [chrIoctl_subnet, xskySetUdpProxySubnet_taken, h]
  simp only
  cases hfam : t.family with
  | true => exact ⟨rfl, fun k hk => calcSubnet_bit _ _ _ hk⟩
  | false => exact ⟨rfl, fun k hk => calcSubnet_bit _ _ _ hk⟩

theorem subnetOf_taken_other {dev : Device} {arg : Nat → Option Byte} {t : XskySubnet}
    (h : takenSubnet arg = some t) {v6 : Bool} (hother : t.family ≠ v6) :
    (chrIoctl dev iocSetUdpProxySubnet arg).2.subnetOf v6 = dev.subnetOf v6 := by
  rw [chrIoctl_subnet, xskySetUdpProxySubnet_taken, h]
  simp only
  cases hfam : t.family with
  | true =>
    rw [hfam] at hother
    cases v6 with
    | true => exact absurd rfl hother
    | false => rfl
  | false =>
    rw [hfam] at hother
    cases v6 with
    | true => rfl
    | false => exact absurd rfl hother

/-- Noting what a request asked for is beside the device. -/
theorem askedStep_ioctl_dev {s s' : Asked} {cmd : BitVec 32} {arg : Nat → Option Byte}
    (hs : askedStep s (.ioctl cmd arg) = some s') : s'.dev = (chrIoctl s.dev cmd arg).2 := by
  simp only [askedStep] at hs
  split at hs
  · cases hs
    unfold Asked.noteSubnet
    split <;> rfl
  · cases hs
    rfl

/-- Nothing but a subnet request that counts changes a subnet. -/
theorem askedStep_frame {node : Nat → Nat} {s s' : Asked} (h : AskedInv node s) {c : DevCall}
    (hc : c.taken = none) (hs : askedStep s c = some s') (v6 : Bool) :
    s'.dev.subnetOf v6 = s.dev.subnetOf v6 := by
  obtain ⟨b, xs, hrep⟩ := h.rep
  cases c with
  | open_ =>
    cases hs
    unfold chrOpen
    split <;> rfl
  | release =>
    cases hs
    rfl
  | packet skb =>
    obtain ⟨v, q, b', hnf, -⟩ := nfHandleIn_caught hrep skb.header
    simp only [askedStep, hnf, Option.map_some, Option.some.injEq] at hs
    subst hs
    rfl
  | read size =>
    cases xs with
    | nil =>
      simp only [askedStep, chrRead_nil hrep, Option.map_some, Option.some.injEq] at hs
      subst hs
      rfl
    | cons x xs =>
      obtain ⟨q, b', hread, -⟩ := chrRead_cons hrep size 0
      simp only [askedStep, hread, Option.map_some, Option.some.injEq] at hs
      subst hs
      rfl
  | ioctl cmd arg =>
    rw [askedStep_ioctl_dev hs]
    by_cases hcmd : cmd = iocSetUdpProxySubnet
    · subst hcmd
      simp only [DevCall.taken, if_true] at hc
      rw [chrIoctl_subnet, xskySetUdpProxySubnet_taken, hc]
    · unfold chrIoctl
      split
      · rfl
      · split
        · rcases xskySetTunnel_cases s.dev arg with he | ⟨tmp, -, he⟩
          · rw [he]
          · rw [he]
            simp only
            split <;> rfl
        · rfl

theorem lastTaken_append (v6 : Bool) (calls : List DevCall) (c : DevCall) :
    lastTaken v6 (calls ++ [c]) =
      match c.taken with
      | none => lastTaken v6 calls
      | some t => if t.family = v6 then t else lastTaken v6 calls := by
  unfold lastTaken
  rw [List.filterMap_append]
  cases htaken : c.taken with
  | none => simp [htaken]
  | some t =>
    by_cases hfam : t.family = v6
    · simp [htaken, hfam]
    · simp [htaken, hfam]

/-- What one call does to a family. -/
theorem keeps_step {node : Nat → Nat} {s s' : Asked} (h : AskedInv node s) {c : DevCall}
    {calls : List DevCall} (hs : askedStep s c = some s') {v6 : Bool}
    (hkeeps : Keeps (s.dev.subnetOf v6) (lastTaken v6 calls) v6) :
    Keeps (s'.dev.subnetOf v6) (lastTaken v6 (calls ++ [c])) v6 := by
  rw [lastTaken_append]
  cases htaken : c.taken with
  | none =>
    rw [askedStep_frame h htaken hs]
    exact hkeeps
  | some t =>
    cases c with
    | ioctl cmd arg =>
      have hcmd : cmd = iocSetUdpProxySubnet := by
        simp only [DevCall.taken] at htaken
        split at htaken
        · assumption
        · cases htaken
      subst hcmd
      simp only [DevCall.taken, if_true] at htaken
      rw [askedStep_ioctl_dev hs]
      simp only
      split
      · rename_i hfam
        subst hfam
        exact keeps_taken htaken
      · rename_i hfam
        rw [subnetOf_taken_other htaken hfam]
        exact hkeeps
    | _ => cases htaken

/-- The run lemma: no call faults, and each family keeps what was last asked for it. -/
theorem keeps_run {node : Nat → Nat} {q : QueueMem} (hq : AskedInv node (.start q))
    (calls : List DevCall) :
    ∃ s, run askedStep (.start q) calls = some s ∧ AskedInv node s ∧
      ∀ v6, Keeps (s.dev.subnetOf v6) (lastTaken v6 calls) v6 := by
  induction calls using List.reverseRecOn with
  | nil =>
    refine ⟨_, rfl, hq, fun v6 => ?_⟩
    have hzero : (Asked.start q).dev.subnetOf v6 = ⟨fun _ => 0, 0, 0⟩ := by
      cases v6 <;> rfl
    rw [hzero]
    exact ⟨Nat.zero_le _, rfl, fun k _ => by simp [lastTaken, addrBit]⟩
  | append_singleton calls c ih =>
    obtain ⟨s, hrun, hinv, hkeeps⟩ := ih
    obtain ⟨s', hs', hinv'⟩ := askedStep_inv hinv c
    refine ⟨s', ?_, hinv', fun v6 => keeps_step hinv hs' (hkeeps v6)⟩
    rw [run_append hrun, run_cons hs']
    rfl

theorem xskyIsSubnet_of_keeps {dev : Device} {asked : XskySubnet} {v6 : Bool}
    (h : Keeps (dev.subnetOf v6) asked v6) (ipaddress : Mem) :
    xskyIsSubnet dev ipaddress v6 = true ↔
      SamePrefix asked.prefixLen.toNat ipaddress asked.address := by
  obtain ⟨hfits, hlen, hbits⟩ := h
  rw [xskyIsSubnet_iff]
  unfold XskySubnet.Holds SamePrefix
  rw [hlen]
  constructor
  · intro hsame k hk
    have hbit := hsame k (by omega)
    rw [hbits k (by omega), decide_eq_true hk, Bool.true_and, Bool.true_and] at hbit
    exact hbit.symm
  · intro hsame k hk
    rw [hbits k hk]
    by_cases hp : k < asked.prefixLen.toNat
    · rw [hsame k hp]
    · rw [decide_eq_false hp, Bool.false_and, Bool.false_and]

/-- After any calls: an address is of the subnet of its family exactly when it has the prefix last
asked for, a request that does not count changes nothing and one that does only its own family, and
`calc_subnet` writes no byte behind the address. -/
theorem subnets_exact (h : Heap) :
    ∃ q, xskyQueueInit h queueSize = some q ∧ ∀ calls,
      ∃ s, run askedStep (.start q) calls = some s ∧ SubnetsExact calls s.dev := by
  obtain ⟨q, hq, hrep⟩ := deviceQueue_rep h
  refine ⟨q, hq, fun calls => ?_⟩
  obtain ⟨s, hrun, -, hkeeps⟩ := keeps_run (askedInv_start hrep) calls
  refine ⟨s, hrun, ?_, ?_, ?_, ?_⟩
  · intro v6 ipaddress
    exact xskyIsSubnet_of_keeps (hkeeps v6) ipaddress
  · intro arg hnone
    rw [chrIoctl_subnet, xskySetUdpProxySubnet_taken, hnone]
  · intro arg t ht
    rw [chrIoctl_subnet, xskySetUdpProxySubnet_taken, ht]
    simp only
    split
    · exact ⟨_, rfl⟩
    · exact ⟨_, rfl⟩
  · intro prefixLen v6 hp
    exact ⟨calcSubnetWrites_lt hp, fun buf ipaddress i hi => calcSubnet_other buf ipaddress hi⟩

end Dgram
end Xsky
