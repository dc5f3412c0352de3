import Xsky.Dgram.Hook

/-!
# Dgram.Whole

Packets in and out of the device, whole or not at all.

* `read_whole_iff`     — when `chr_read` delivers the oldest packet or leaves the queue alone. It
  pops before it copies and never looks at the size of the user's buffer.
* `diverted_whole_iff` — when `nf_handle_in` queues all of a datagram or lets it pass. The length of
  an IPv6 datagram wraps before it is compared with `XSKY_MTU`, and what is in page fragments is not
  looked for.
-/

namespace Xsky
namespace Dgram

open Kit

/-- The ring of the device represents the queue `xs`. -/
def Device.Holds (dev : Device) (xs : List Packet) : Prop :=
  ∃ node b, Rep dev.rQueue queueSize node b xs

theorem Device.Holds.unique {dev : Device} {xs ys : List Packet} (hx : dev.Holds xs)
    (hy : dev.Holds ys) : xs = ys := by
  obtain ⟨_, _, hx⟩ := hx
  obtain ⟨_, _, hy⟩ := hy
  rw [← hx.queued, ← hy.queued]

/-! ## Reading -/

/-- What a read of a queue `xs` into a buffer of `size` bytes may return and write, and the device
it may leave: the oldest packet delivered and taken off, or an error and the queue as it was. -/
def WholeOrNothing (xs : List Packet) (size : Nat) (ret : Int) (written : List Byte)
    (dev : Device) : Prop :=
  (∃ x ys, xs = x :: ys ∧ ret = x.length ∧ x.length ≤ size ∧ written = x ∧ dev.Holds ys) ∨
    (ret < 0 ∧ written.length ≤ size ∧ dev.Holds xs)

/-- Whatever goes wrong with the copy, the packet is gone. -/
theorem fits_of_whole {dev : Device} {x : Packet} {ys : List Packet} (h : dev.Holds (x :: ys))
    {size left : Nat}
    (hread : ∃ ret written dev', chrRead dev size left = some ((ret, written), dev') ∧
      WholeOrNothing (x :: ys) size ret written dev') : x.length ≤ size ∧ left = 0 := by
  obtain ⟨ret, written, dev', heq, hwhole⟩ := hread
  obtain ⟨node, b, hrep⟩ := h
  obtain ⟨q, b', hcons, hrep'⟩ := chrRead_cons hrep size left
  have hys : Device.Holds { dev with rQueue := q } ys := ⟨node, b', hrep'⟩
  rw [hcons] at heq
  obtain ⟨hret, hdev⟩ := Prod.mk.inj (Option.some.inj heq)
  subst hdev
  obtain ⟨x', ys', hxs, hlen, hle, _⟩ | ⟨_, _, hheld⟩ := hwhole
  · cases hxs
    refine ⟨hle, ?_⟩
    by_cases hleft : left = 0
    · exact hleft
    · -- the error returned is no length
      rw [if_pos hleft] at hret
      have hneg : -efault = ret := congrArg Prod.fst hret
      rw [hlen, efault] at hneg
      omega
  · have hgone := congrArg List.length (hys.unique hheld)
    simp at hgone

/-- A read delivers the oldest packet or leaves the queue alone, if and only if there is no packet,
or the buffer has room for it and the copy succeeds. -/
theorem read_whole_iff (dev : Device) (xs : List Packet) (h : dev.Holds xs) (size left : Nat) :
    (∃ ret written dev', chrRead dev size left = some ((ret, written), dev') ∧
      WholeOrNothing xs size ret written dev') ↔
    ∀ x ∈ xs.head?, x.length ≤ size ∧ left = 0 := by
  cases xs with
  | nil =>
    constructor
    · intro _ x hx
      cases hx
    · intro _
      obtain ⟨node, b, hrep⟩ := h
      exact ⟨_, _, dev, chrRead_nil hrep size left,
        .inr ⟨by decide, Nat.zero_le _, node, b, hrep⟩⟩
  | cons x ys =>
    constructor
    · intro hread x' hx'
      cases hx'
      exact fits_of_whole h hread
    · intro hcond
      obtain ⟨hle, rfl⟩ := hcond x rfl
      obtain ⟨node, b, hrep⟩ := h
      obtain ⟨q, b', hread, hrep'⟩ := chrRead_cons hrep size 0
      exact ⟨_, _, _, hread, .inl ⟨x, ys, rfl, rfl, hle, rfl, node, b', hrep'⟩⟩

/-- The device with one datagram of 28 bytes in its queue. -/
theorem loaded_holds :
    ∃ q q', xskyQueueInit Heap.empty queueSize = some q ∧
      xskyQueuePush q udpDatagram 28 = some (0, q') ∧
      (Device.init q').Holds [packetAt udpDatagram 28] := by
  obtain ⟨q, hq, hrep⟩ := deviceQueue_rep Heap.empty
  obtain ⟨q', hq', hrep'⟩ := xskyQueuePush_accepted hrep udpDatagram
    (show 28 ≤ xskyMtu by decide) (show ([] : List Packet).length < queueSize by decide)
  exact ⟨q, q', hq, hq', _, _, hrep'⟩

theorem read_whole_loaded :
    ∃ q q', xskyQueueInit Heap.empty queueSize = some q ∧
      xskyQueuePush q udpDatagram 28 = some (0, q') ∧
      ((∃ ret written dev', chrRead (Device.init q') 100 0 = some ((ret, written), dev') ∧
          WholeOrNothing [packetAt udpDatagram 28] 100 ret written dev') ↔
        ∀ x ∈ [packetAt udpDatagram 28].head?, x.length ≤ 100 ∧ 0 = 0) := by
  obtain ⟨q, q', hq, hq', hholds⟩ := loaded_holds
  exact ⟨q, q', hq, hq', read_whole_iff _ _ hholds 100 0⟩

/-- A buffer of 20 bytes gets 28, and a copy that fails loses the packet. -/
theorem read_overruns :
    ∃ q q', xskyQueueInit Heap.empty queueSize = some q ∧
      xskyQueuePush q udpDatagram 28 = some (0, q') ∧
      (¬ ∃ ret written dev', chrRead (Device.init q') 20 0 = some ((ret, written), dev') ∧
        WholeOrNothing [packetAt udpDatagram 28] 20 ret written dev') ∧
      ¬ ∃ ret written dev', chrRead (Device.init q') 100 28 = some ((ret, written), dev') ∧
        WholeOrNothing [packetAt udpDatagram 28] 100 ret written dev' := by
  obtain ⟨q, q', hq, hq', hholds⟩ := loaded_holds
  refine ⟨q, q', hq, hq', fun h => ?_, fun h => ?_⟩
  · have hle := (fits_of_whole hholds h).1
    rw [packetAt_length] at hle
    omega
  · have hleft := (fits_of_whole hholds h).2
    omega

/-! ## Diverting -/

/-- What the hook may do with a datagram that meets the queue `xs`: queue all of it and drop it, or
let it pass. -/
structure WholeOrPassed (xs : List Packet) (skb : SkBuff) (v : Verdict) (dev : Device) :
    Prop where
  diverted : v = .drop → dev.Holds (xs ++ [datagram skb])
  passed : v = .accept → dev.Holds xs
  long : xskyMtu < datagramLen skb.header → v = .accept

theorem pushedLen_of_fits {skb : Mem} (h : LengthFits skb) : pushedLen skb = datagramLen skb := by
  unfold pushedLen datagramLen
  cases hv : isV6 skb with
  | false => rfl
  | true => rw [if_pos rfl, if_pos rfl, Nat.mod_eq_of_lt (h hv)]

/-- A length that does not fit wraps to less than that of the header. -/
theorem pushedLen_wraps {skb : Mem} (h : ¬ LengthFits skb) :
    pushedLen skb < 40 ∧ xskyMtu < datagramLen skb := by
  have hv : isV6 skb = true := by
    apply Classical.byContradiction
    intro hno
    exact h fun hv => absurd hv hno
  have hlen : 2 ^ 16 ≤ ip6PayloadLen skb 0 + 40 := by
    apply Nat.le_of_not_lt
    intro hlt
    exact h fun _ => hlt
  have h0 := (skb (0 + 4)).isLt
  have h1 := (skb (0 + 4 + 1)).isLt
  have hbe : ip6PayloadLen skb 0 = 2 ^ 8 * (skb (0 + 4)).toNat + (skb (0 + 4 + 1)).toNat := rfl
  rw [pushedLen, datagramLen, if_pos hv, if_pos hv, xskyMtu]
  omega

/-- What is pushed of a datagram that gets to a queue with room: one whose length has wrapped is
diverted, and so is one with other bytes behind its header than its own. -/
theorem intact_of_diverted {dev : Device} {xs : List Packet} (h : dev.Holds xs) {skb : SkBuff}
    (hopen : dev.flockFlag = true) (hreach : reachesPush dev skb.header = true)
    (hroom : xs.length < queueSize)
    (hwhole : ∃ v dev', nfHandleIn dev (some skb.header) = some (v, dev') ∧
      WholeOrPassed xs skb v dev') :
    LengthFits skb.header ∧ (datagramLen skb.header ≤ xskyMtu → skb.Intact) := by
  obtain ⟨node, b, hrep⟩ := h
  obtain ⟨v, q, b', hpush, hv, hrep'⟩ := pushPacketToUser_rep hrep skb.header (pushedLen skb.header)
  obtain ⟨v', dev', heq, hwhole⟩ := hwhole
  rw [nfHandleIn_eq, if_pos ⟨hopen, hreach⟩, hpush] at heq
  cases heq
  have hfits : LengthFits skb.header := by
    apply Classical.byContradiction
    intro hno
    obtain ⟨hshort, hlong⟩ := pushedLen_wraps hno
    have hdrop : v = .drop := hv.mpr ⟨by rw [xskyMtu]; omega, hroom⟩
    rw [hwhole.long hlong] at hdrop
    cases hdrop
  refine ⟨hfits, fun hle => ?_⟩
  rw [pushedLen_of_fits hfits] at hv hrep'
  have hdrop := hv.mpr ⟨hle, hroom⟩
  rw [if_pos hdrop] at hrep'
  have hheld : Device.Holds { dev with rQueue := q } _ := ⟨node, b', hrep'⟩
  exact (List.cons.inj (List.append_cancel_left (hheld.unique (hwhole.diverted hdrop)))).1

/-- The hook queues all of a datagram or lets it pass, if and only if the length of one that gets to
a queue with room fits in 16 bits and, unless that is too long for the queue, the memory from its
header on has all its bytes. -/
theorem diverted_whole_iff (dev : Device) (xs : List Packet) (h : dev.Holds xs) (skb : SkBuff) :
    (∃ v dev', nfHandleIn dev (some skb.header) = some (v, dev') ∧ WholeOrPassed xs skb v dev') ↔
    (dev.flockFlag = true → reachesPush dev skb.header = true → xs.length < queueSize →
      LengthFits skb.header ∧ (datagramLen skb.header ≤ xskyMtu → skb.Intact)) := by
  constructor
  · intro hwhole hopen hreach hroom
    exact intact_of_diverted h hopen hreach hroom hwhole
  · intro hcond
    obtain ⟨node, b, hrep⟩ := h
    rw [nfHandleIn_eq]
    by_cases hpush : dev.flockFlag = true ∧ reachesPush dev skb.header = true
    · obtain ⟨v, q, b', hq, hv, hrep'⟩ :=
        pushPacketToUser_rep hrep skb.header (pushedLen skb.header)
      rw [if_pos hpush, hq]
      cases v with
      | drop =>
        obtain ⟨hle, hroom⟩ := hv.mp rfl
        obtain ⟨hfits, hintact⟩ := hcond hpush.1 hpush.2 hroom
        rw [pushedLen_of_fits hfits] at hle hrep'
        have hbytes : packetAt skb.header (datagramLen skb.header) = datagram skb := hintact hle
        rw [if_pos rfl, hbytes] at hrep'
        refine ⟨.drop, _, rfl, fun _ => ⟨node, b', hrep'⟩, fun haccept => ?_, fun hlong => ?_⟩
        · cases haccept
        · omega
      | accept =>
        rw [if_neg (by decide), List.append_nil] at hrep'
        refine ⟨.accept, _, rfl, fun hdrop => ?_, fun _ => ⟨node, b', hrep'⟩, fun _ => rfl⟩
        cases hdrop
    · rw [if_neg hpush]
      refine ⟨.accept, dev, rfl, fun hdrop => ?_, fun _ => ⟨node, b, hrep⟩, fun _ => rfl⟩
      cases hdrop

/-- A device just opened. -/
theorem opened_holds :
    ∃ q, xskyQueueInit Heap.empty queueSize = some q ∧
      (chrOpen (Device.init q)).2.flockFlag = true ∧ (chrOpen (Device.init q)).2.Holds [] := by
  obtain ⟨q, hq, hrep⟩ := deviceQueue_rep Heap.empty
  exact ⟨q, hq, rfl, _, _, hrep⟩

/-- A datagram in linear memory, on a device just opened. -/
theorem diverted_whole_udp :
    ∃ q, xskyQueueInit Heap.empty queueSize = some q ∧
      ∃ v dev', nfHandleIn (chrOpen (Device.init q)).2 (some udpDatagram) = some (v, dev') ∧
        WholeOrPassed [] ⟨udpDatagram, 28, []⟩ v dev' := by
  obtain ⟨q, hq, _, hholds⟩ := opened_holds
  refine ⟨q, hq, (diverted_whole_iff _ _ hholds ⟨udpDatagram, 28, []⟩).mpr fun _ _ _ => ?_⟩
  refine ⟨fun h6 => ?_, fun _ => by decide⟩
  simp [isV6, ipVersion, udpDatagram] at h6

/-- An IPv6 datagram with UDP in it and a payload of 65500 bytes. -/
def longDatagram : SkBuff where
  header := fun i => if i = 0 then 0x60 else if i = 4 then 0xff else if i = 5 then 0xdc
    else if i = 6 then 17 else 0
  headlen := 65540
  frags := []

/-- Four bytes of it are queued, and the rest is dropped. -/
theorem long_datagram_cut :
    ∃ q, xskyQueueInit Heap.empty queueSize = some q ∧
      ¬ ∃ v dev', nfHandleIn (chrOpen (Device.init q)).2 (some longDatagram.header) =
        some (v, dev') ∧ WholeOrPassed [] longDatagram v dev' := by
  obtain ⟨q, hq, hopen, hholds⟩ := opened_holds
  refine ⟨q, hq, fun hwhole => ?_⟩
  have hreach : reachesPush (chrOpen (Device.init q)).2 longDatagram.header = true := by
    unfold reachesPush
    rw [isSubnet_zero (by rfl)]
    rfl
  have hfits := (intact_of_diverted hholds hopen hreach (by decide) hwhole).1 rfl
  revert hfits
  decide

end Dgram
end Xsky
