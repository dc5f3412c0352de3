import Xsky.Dgram.Hook

/-!
# Dgram.Configured

What the hook does with packets of a family for which no subnet has been set yet.

The subnet of such a family is still all zeros with a prefix of length 0, which every address has,
and `is_set_subnet` is not looked at. `unset_accepts_iff`: in a run of the device, nothing of a
family without a subnet is diverted if and only if the hook has another reason to let each of its
packets pass. `open_diverts` is a run with none.
-/

namespace Xsky
namespace Dgram

open Kit

/-- The device, and whether a subnet request of each family has succeeded. -/
structure Asked where
  dev : Device
  set4 : Bool
  set6 : Bool

def Asked.start (q : QueueMem) : Asked := ⟨Device.init q, false, false⟩

/-- Records a subnet request that succeeded. -/
def Asked.noteSubnet (s : Asked) (t : Mem) : Asked :=
  if t 17 ≠ 0 then { s with set6 := true } else { s with set4 := true }

def askedStep (s : Asked) : DevCall → Option Asked
  | .open_ => some { s with dev := (chrOpen s.dev).2 }
  | .release => some { s with dev := (chrRelease s.dev).2 }
  | .ioctl cmd arg =>
    let s' := { s with dev := (chrIoctl s.dev cmd arg).2 }
    if (chrIoctl s.dev cmd arg).1 = 0 ∧ cmd = iocSetUdpProxySubnet then
      some (s'.noteSubnet fun i => (arg i).getD 0)
    else some s'
  | .packet skb => (nfHandleIn s.dev (some skb.header)).map fun (_, dev) => { s with dev := dev }
  | .read size => (chrRead s.dev size 0).map fun (_, dev) => { s with dev := dev }

def Asked.isSet (s : Asked) (v6 : Bool) : Bool := if v6 then s.set6 else s.set4

/-- A packet of a family without a subnet passes, and nothing of it is queued. -/
def UnsetAccepts (s : Asked) : DevCall → Prop
  | .packet skb => s.isSet (isV6 skb.header) = false →
      ∃ dev, nfHandleIn s.dev (some skb.header) = some (.accept, dev) ∧
        queued dev.rQueue = queued s.dev.rQueue
  | _ => True

/-- No reason but the subnet to let the packet pass. -/
structure Caught (dev : Device) (skb : Mem) : Prop where
  opened : dev.flockFlag = true
  protocol : protocol skb = 17 ∨ protocol skb = 136
  notTunnel : dev.toTunnel skb = false
  fits : pushedLen skb ≤ xskyMtu
  room : (queued dev.rQueue).length < queueSize

def UnsetPasses (s : Asked) : DevCall → Prop
  | .packet skb => s.isSet (isV6 skb.header) = false → ¬ Caught s.dev skb.header
  | _ => True

structure AskedInv (node : Nat → Nat) (s : Asked) : Prop where
  rep : ∃ b xs, Rep s.dev.rQueue queueSize node b xs
  zero4 : s.set4 = false → s.dev.subnet = ⟨fun _ => 0, 0, 0⟩
  zero6 : s.set6 = false → s.dev.subnet6 = ⟨fun _ => 0, 0, 0⟩

/-! ## The hook -/

/-- The hook diverts the packets of the subnet that nothing else lets pass. -/
theorem nfHandleIn_caught {dev : Device} {node : Nat → Nat} {b : Nat} {xs : List Packet}
    (h : Rep dev.rQueue queueSize node b xs) (skb : Mem) :
    ∃ v q b', nfHandleIn dev (some skb) = some (v, { dev with rQueue := q }) ∧
      (v = .drop ↔ Caught dev skb ∧
        xskyIsSubnet dev (fun i => skb (sourceAt skb + i)) (isV6 skb) = true) ∧
      Rep q queueSize node b' (xs ++ if v = .drop then [packetAt skb (pushedLen skb)] else []) := by
  rw [nfHandleIn_rest]
  by_cases hopen : dev.flockFlag = false
  · rw [if_pos hopen]
    refine ⟨.accept, dev.rQueue, b, rfl, ?_, by simpa using h⟩
    constructor
    · intro hd
      cases hd
    · rintro ⟨hc, -⟩
      rw [hc.opened] at hopen
      cases hopen
  · rw [if_neg hopen]
    obtain ⟨v, q, b', hq, hv, hrep⟩ := nfHandleRest_rep h skb
    refine ⟨v, q, b', hq, hv.trans ?_, hrep⟩
    unfold reachesPush
    simp only [Bool.and_eq_true, Bool.or_eq_true, beq_iff_eq, Bool.not_eq_true']
    constructor
    · rintro ⟨⟨⟨hp, ht⟩, hs⟩, hfits, hroom⟩
      exact ⟨⟨by simpa using hopen, hp, ht, hfits, by rw [h.queued]; exact hroom⟩, hs⟩
    · rintro ⟨hc, hs⟩
      exact ⟨⟨⟨hc.protocol, hc.notTunnel⟩, hs⟩, hc.fits, by rw [← h.queued]; exact hc.room⟩

/-! ## Requests -/

/-- A subnet request leaves the subnet of the other family alone, and one that fails both. -/
theorem xskySetUdpProxySubnet_cases (dev : Device) (arg : Nat → Option Byte) :
    xskySetUdpProxySubnet dev arg = (-einval, dev) ∨
    ∃ t b, xskySetUdpProxySubnet dev arg = (0,
      if (arg 17).getD 0 ≠ 0 then { dev with subnet6 := t, isSetSubnet6 := b }
      else { dev with subnet := t, isSetSubnet := b }) := by
  unfold xskySetUdpProxySubnet copyFromUser
  by_cases hall : ((List.range 18).all fun i => (arg i).isSome) = true
  · simp only [hall, if_true]
    split
    · exact .inl rfl
    · split
      · exact .inl rfl
      · split
        · exact .inr ⟨_, _, rfl⟩
        · exact .inr ⟨_, _, rfl⟩
  · left
    simp only [hall, if_false, Bool.false_eq_true]

theorem AskedInv.ioctl {node : Nat → Nat} {s : Asked} (h : AskedInv node s) (cmd : BitVec 32)
    (arg : Nat → Option Byte) :
    ∃ s', askedStep s (.ioctl cmd arg) = some s' ∧ AskedInv node s' := by
  by_cases hcmd : cmd = iocSetUdpProxySubnet
  · subst hcmd
    have hcall : chrIoctl s.dev iocSetUdpProxySubnet arg = xskySetUdpProxySubnet s.dev arg := by
      unfold chrIoctl
      rw [if_neg (by decide), if_pos rfl]
    rcases xskySetUdpProxySubnet_cases s.dev arg with he | ⟨t, b, he⟩
    · simp only [askedStep, hcall, he]
      exact ⟨_, rfl, h⟩
    · simp only [askedStep, hcall, he, and_self, if_true, Asked.noteSubnet]
      split
      · exact ⟨_, rfl, h.rep, h.zero4, fun h6 => by cases h6⟩
      · exact ⟨_, rfl, h.rep, (fun h4 => by cases h4), h.zero6⟩
  · have hno : ¬ ((chrIoctl s.dev cmd arg).1 = 0 ∧ cmd = iocSetUdpProxySubnet) :=
      fun hc => hcmd hc.2
    simp only [askedStep, if_neg hno]
    refine ⟨_, rfl, ?_⟩
    unfold chrIoctl
    split
    · exact h
    · split
      · rcases xskySetTunnel_cases s.dev arg with he | ⟨tmp, -, he⟩
        · rw [he]
          exact h
        · rw [he]
          simp only
          split
          · exact ⟨h.rep, h.zero4, h.zero6⟩
          · exact ⟨h.rep, h.zero4, h.zero6⟩
      · exact h

theorem askedStep_inv {node : Nat → Nat} {s : Asked} (h : AskedInv node s) (c : DevCall) :
    ∃ s', askedStep s c = some s' ∧ AskedInv node s' := by
  obtain ⟨b, xs, hrep⟩ := h.rep
  cases c with
  | open_ =>
    simp only [askedStep, chrOpen]
    split
    · exact ⟨_, rfl, h⟩
    · exact ⟨_, rfl, ⟨b, xs, hrep⟩, h.zero4, h.zero6⟩
  | release => exact ⟨_, rfl, ⟨b, [], xskyQueueReset_rep hrep⟩, h.zero4, h.zero6⟩
  | ioctl cmd arg => exact h.ioctl cmd arg
  | packet skb =>
    obtain ⟨v, q, b', hnf, -, hrep'⟩ := nfHandleIn_caught hrep skb.header
    refine ⟨{ s with dev := { s.dev with rQueue := q } }, ?_, ⟨b', _, hrep'⟩, h.zero4, h.zero6⟩
    simp only [askedStep, hnf, Option.map_some]
  | read size =>
    cases xs with
    | nil =>
      refine ⟨s, ?_, h⟩
      simp only [askedStep, chrRead_nil hrep, Option.map_some]
    | cons x xs =>
      obtain ⟨q, b', hread, hrep'⟩ := chrRead_cons hrep size 0
      refine ⟨{ s with dev := { s.dev with rQueue := q } }, ?_, ⟨b', xs, hrep'⟩, h.zero4, h.zero6⟩
      simp only [askedStep, hread, Option.map_some]

theorem askedInv_start {q : QueueMem} {node : Nat → Nat} (h : Rep q queueSize node 0 []) :
    AskedInv node (.start q) := ⟨⟨0, [], h⟩, fun _ => rfl, fun _ => rfl⟩

/-- One call. -/
theorem unsetAccepts_iff {node : Nat → Nat} {s : Asked} (h : AskedInv node s) (c : DevCall) :
    UnsetAccepts s c ↔ UnsetPasses s c := by
  cases c with
  | packet skb =>
    obtain ⟨b, xs, hrep⟩ := h.rep
    obtain ⟨v, q, b', hnf, hv, hrep'⟩ := nfHandleIn_caught hrep skb.header
    simp only [UnsetAccepts, UnsetPasses]
    refine forall_congr' fun hunset => ?_
    have hzero : s.dev.subnetOf (isV6 skb.header) = ⟨fun _ => 0, 0, 0⟩ := by
      unfold Asked.isSet at hunset
      unfold Device.subnetOf
      split
      · rename_i h6
        rw [if_pos h6] at hunset
        exact h.zero6 hunset
      · rename_i h6
        rw [if_neg h6] at hunset
        exact h.zero4 hunset
    rw [isSubnet_zero hzero, and_iff_left rfl] at hv
    rw [← hv]
    constructor
    · rintro ⟨dev, hacc, -⟩ rfl
      rw [hnf] at hacc
      cases hacc
    · intro hno
      cases v with
      | drop => exact absurd rfl hno
      | accept =>
        refine ⟨_, hnf, ?_⟩
        rw [hrep'.queued, hrep.queued]
        simp
  | _ => exact Iff.rfl

/-- Nothing of a family without a subnet is diverted if and only if something but the subnet lets
each of its packets pass. -/
theorem unset_accepts_iff (h : Heap) :
    ∃ q, xskyQueueInit h queueSize = some q ∧ ∀ calls,
      (Along askedStep UnsetAccepts (.start q) calls ↔
        Along askedStep UnsetPasses (.start q) calls) := by
  obtain ⟨q, hq, hrep⟩ := deviceQueue_rep h
  refine ⟨q, hq, fun calls => ?_⟩
  have hkeep : ∀ s c, AskedInv (fun i => h.brk + i) s → ∀ s', askedStep s c = some s' →
      AskedInv (fun i => h.brk + i) s' := by
    intro s c hinv s' hs'
    obtain ⟨t, ht, hinv'⟩ := askedStep_inv hinv c
    rw [hs'] at ht
    cases ht
    exact hinv'
  constructor
  · refine along_of_along (fun s c hinv hacc => ⟨?_, hkeep s c hinv⟩) (askedInv_start hrep)
    exact (unsetAccepts_iff hinv c).mp hacc
  · refine along_of_along (fun s c hinv hpass => ⟨?_, hkeep s c hinv⟩) (askedInv_start hrep)
    exact (unsetAccepts_iff hinv c).mpr hpass

/-- No subnet at all, and the first UDP datagram behind `open` is diverted. -/
theorem open_diverts :
    ∃ q, xskyQueueInit Heap.empty queueSize = some q ∧
      ¬ Along askedStep UnsetAccepts (.start q)
        [.open_, .packet ⟨udpDatagram, 28, []⟩] := by
  obtain ⟨q, hq, hrep⟩ := deviceQueue_rep Heap.empty
  refine ⟨q, hq, fun hall => ?_⟩
  obtain ⟨s, hs, hinv⟩ := askedStep_inv (askedInv_start hrep) .open_
  obtain ⟨-, hrest⟩ := hall
  have hpasses := (unsetAccepts_iff hinv _).mp (hrest s hs).1
  cases hs
  refine hpasses rfl ⟨rfl, .inl rfl, ?_, by decide, ?_⟩
  · rfl
  · have hqueued : queued (chrOpen (Asked.start q).dev).2.rQueue = [] := hrep.queued
    rw [hqueued]
    decide

end Dgram
end Xsky
