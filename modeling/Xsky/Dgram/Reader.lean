import Xsky.Dgram.Fifo

/-!
# Dgram.Reader

One reader of the ring. `chr_read` pops a node and then copies it to the user, in two atomic
steps; any number of whole pushes may come between. The node is free for reuse from the pop on.

`delivered_iff_untouched`: the reader gets every packet as it was pushed, in order and once, in
exactly the runs where no push accepted between the two steps puts another packet in the node the
reader holds.
-/

namespace Xsky
namespace Dgram

open Kit

/-- The queue, the node the reader has popped and not yet copied, the packets accepted so far and
what the reader got so far: for each read, the length and the bytes. -/
structure ReadState where
  mem : QueueMem
  held : Option Nat
  accepted : List Packet
  got : List (Nat × Packet)

inductive ReadStep where
  | push (data : Mem) (size : Nat)
  | pop
  | copy

def ReadState.start (m : QueueMem) : ReadState := ⟨m, none, [], []⟩

/-- A step of the reader that is not its next one leaves the state as it is. -/
def readStep (s : ReadState) : ReadStep → Option ReadState
  | .push data size =>
    (xskyQueuePush s.mem data size).map fun (ret, m) =>
      { s with
        mem := m
        accepted := if ret = 0 then s.accepted ++ [packetAt data size] else s.accepted }
  | .pop =>
    match s.held with
    | some _ => some s
    | none =>
      (xskyQueuePop s.mem).map fun (p, m) =>
        { s with mem := m, held := if p = 0 then none else some p }
  | .copy =>
    match s.held with
    | none => some s
    | some p =>
      (s.mem.heap.cell p).map fun d =>
        { s with held := none, got := s.got ++ [(d.size, d.packet)] }

/-- What the reader would get by copying now. -/
def ReadState.inHand (s : ReadState) : List (Nat × Packet) :=
  match s.held with
  | none => []
  | some p => ((s.mem.heap.cell p).map fun d => (d.size, d.packet)).toList

/-- What a reader should get for a packet. -/
def asPushed (p : Packet) : Nat × Packet := (p.length, p)

/-- What the reader got, what it would get by copying now, and as many packets as are stored make
up the packets accepted, each as it was pushed. -/
def Delivered (s : ReadState) : Prop :=
  ∃ stored, stored.length = s.mem.queue.have_ ∧
    s.accepted.map asPushed = s.got ++ s.inHand ++ stored

/-- An accepted push does not put another packet in the node the reader holds. -/
def Untouched (s : ReadState) : ReadStep → Prop
  | .push data size =>
    ∀ p d, s.held = some p → s.mem.heap.cell p = some d → pushTest s.mem size = none →
      pushTarget s.mem = some p → (d.size, d.packet) = asPushed (packetAt data size)
  | _ => True

structure ReadInv (n : Nat) (node : Nat → Nat) (s : ReadState) : Prop where
  held : ∀ p, s.held = some p → ∃ d, s.mem.heap.cell p = some d
  rep : ∃ b xs, Rep s.mem n node b xs ∧
    s.accepted.map asPushed = s.got ++ s.inHand ++ xs.map asPushed

theorem ReadInv.delivered {n : Nat} {node : Nat → Nat} {s : ReadState} (h : ReadInv n node s) :
    Delivered s := by
  obtain ⟨b, xs, hrep, hacc⟩ := h.rep
  exact ⟨xs.map asPushed, by rw [List.length_map, hrep.count], hacc⟩

/-- A push that writes one node: what the reader holds is that node, or unchanged. -/
theorem inHand_push {s : ReadState} {m : QueueMem} {t : Nat} {data : Mem} {size : Nat}
    (hs : size ≤ xskyMtu) (hheap : m.heap = s.mem.heap.update t (·.fill data size))
    (hheld : ∀ p, s.held = some p → ∃ d, s.mem.heap.cell p = some d) (acc : List Packet) :
    (ReadState.inHand { s with mem := m, accepted := acc }) =
      if s.held = some t then [asPushed (packetAt data size)] else s.inHand := by
  simp only [ReadState.inHand]
  cases hh : s.held with
  | none => simp
  | some p =>
    obtain ⟨d, hd⟩ := hheld p hh
    by_cases hp : p = t
    · subst hp
      simp only [hheap, Heap.update_cell_same hd, Option.map_some, Option.toList_some, if_true,
        d.fill_packet data hs, XskyQueueData.fill_size, asPushed, packetAt_length]
    · simp only [hheap, Heap.update_cell_other hp, Option.some.injEq, if_neg hp]

theorem readStep_push {n b : Nat} {node : Nat → Nat} {s : ReadState} {xs : List Packet}
    (hrep : Rep s.mem n node b xs) (data : Mem) (size : Nat) :
    (∃ r, pushTest s.mem size = some r ∧ readStep s (.push data size) = some s) ∨
    (pushTest s.mem size = none ∧ size ≤ xskyMtu ∧ ∃ m t, pushTarget s.mem = some t ∧
      m.heap = s.mem.heap.update t (·.fill data size) ∧
      Rep m n node (pushPlace b xs) (xs ++ [packetAt data size]) ∧
      readStep s (.push data size) =
        some { s with mem := m, accepted := s.accepted ++ [packetAt data size] }) := by
  have ht := pushTest_rep hrep size
  by_cases hs : size > xskyMtu
  · rw [if_pos hs] at ht
    exact .inl ⟨-1, ht, by simp [readStep, xskyQueuePush, ht]⟩
  · rw [if_neg hs] at ht
    by_cases hfull : xs.length = n
    · rw [if_pos hfull] at ht
      exact .inl ⟨-2, ht, by simp [readStep, xskyQueuePush, ht]⟩
    · rw [if_neg hfull] at ht
      have hlt : xs.length < n := Nat.lt_of_le_of_ne hrep.window.fits hfull
      obtain ⟨m, hm, hheap, hrep'⟩ := pushLocked_rep hrep data (Nat.le_of_not_gt hs) hlt
      exact .inr ⟨ht, Nat.le_of_not_gt hs, m, _, hrep.pushTarget, hheap, hrep',
        by simp [readStep, xskyQueuePush, ht, hm]⟩

theorem readStep_inv {n : Nat} {node : Nat → Nat} (s : ReadState) (i : ReadStep)
    (h : ReadInv n node s) (hC : Untouched s i) :
    ∃ s', readStep s i = some s' ∧ ReadInv n node s' := by
  obtain ⟨b, xs, hrep, hacc⟩ := h.rep
  cases i with
  | push data size =>
    obtain ⟨r, _, hstep⟩ | ⟨htest, hs, m, t, ht, hheap, hrep', hstep⟩ :=
      readStep_push hrep data size
    · exact ⟨s, hstep, h⟩
    · refine ⟨_, hstep, fun p hp => ?_, _, _, hrep', ?_⟩
      · obtain ⟨d, hd⟩ := h.held p hp
        by_cases hpt : p = t
        · subst hpt
          exact ⟨_, by simp only [hheap]; exact Heap.update_cell_same hd _⟩
        · exact ⟨d, by simp only [hheap]; rw [Heap.update_cell_other hpt, hd]⟩
      · rw [inHand_push hs hheap h.held]
        have hsame : (if s.held = some t then [asPushed (packetAt data size)] else s.inHand) =
            s.inHand := by
          split
          · rename_i hh
            obtain ⟨d, hd⟩ := h.held t hh
            simp [ReadState.inHand, hh, hd, hC t d hh hd htest ht]
          · rfl
        rw [hsame, List.map_append, List.map_append, hacc]
        simp only [List.append_assoc, List.map_cons, List.map_nil]
  | pop =>
    simp only [readStep]
    cases hh : s.held with
    | some p => exact ⟨s, rfl, h⟩
    | none =>
      simp only [ReadState.inHand, hh, List.append_nil] at hacc
      cases xs with
      | nil =>
        have hc : s.mem.queue.have_ = 0 := hrep.count
        refine ⟨_, by simp only [xskyQueuePop, hc, if_true, Option.map_some]; rfl, ?_⟩
        exact ⟨fun p hp => by simp at hp, b, [], hrep, by simpa [ReadState.inHand] using hacc⟩
      | cons x xs =>
        have hc : s.mem.queue.have_ ≠ 0 := by rw [hrep.count]; simp
        obtain ⟨m, hm, hheap, hrep'⟩ := popLocked_rep hrep
        obtain ⟨d, hd, hsize, hpkt⟩ := hrep.window.head
        have hnode := Heap.ne_null hd
        refine ⟨_, by simp only [xskyQueuePop, if_neg hc, hm, Option.map_some, if_neg hnode]; rfl,
          ?_⟩
        refine ⟨fun p hp => ?_, _, _, hrep', ?_⟩
        · cases hp
          exact ⟨d, by simp only [hheap]; exact hd⟩
        · simp only [ReadState.inHand, hheap, hd, Option.map_some, Option.toList_some, hsize, hpkt,
            hacc, List.map_cons, List.append_assoc, asPushed, List.singleton_append]
  | copy =>
    simp only [readStep]
    cases hh : s.held with
    | none => exact ⟨s, rfl, h⟩
    | some p =>
      obtain ⟨d, hd⟩ := h.held p hh
      refine ⟨{ s with held := none, got := s.got ++ [(d.size, d.packet)] },
        by simp only [hd, Option.map_some], fun q hq => by simp at hq, b, xs, hrep, ?_⟩
      simpa [ReadState.inHand, hh, hd] using hacc

/-- A push that puts another packet in the node the reader holds shows in what it would get. -/
theorem untouched_of_delivered {n : Nat} {node : Nat → Nat} (s : ReadState) (i : ReadStep)
    (s' : ReadState) (h : ReadInv n node s) (hstep : readStep s i = some s')
    (hdel : Delivered s') : Untouched s i := by
  cases i with
  | pop => trivial
  | copy => trivial
  | push data size =>
    intro p d hh hd htest ht
    obtain ⟨b, xs, hrep, hacc⟩ := h.rep
    obtain ⟨r, hr, _⟩ | ⟨_, hs, m, t, ht', hheap, hrep', hstep'⟩ := readStep_push hrep data size
    · rw [htest] at hr
      cases hr
    · rw [ht] at ht'
      cases ht'
      rw [hstep'] at hstep
      cases hstep
      obtain ⟨stored, _, hacc'⟩ := hdel
      rw [inHand_push hs hheap h.held, if_pos hh] at hacc'
      simp only [List.map_append, hacc, ReadState.inHand, hh, hd, Option.map_some,
        Option.toList_some, List.append_assoc, List.singleton_append] at hacc'
      exact (List.cons.inj (List.append_cancel_left hacc')).1

theorem readInv_start {m : QueueMem} {n : Nat} {node : Nat → Nat} (h : Rep m n node 0 []) :
    ReadInv n node (.start m) :=
  ⟨fun _ hp => by simp [ReadState.start] at hp, 0, [], h, rfl⟩

/-- Over any interleaving of one reader's steps with whole pushes, the reader is served the
packets accepted, unchanged, in order and once, if and only if no accepted push puts another
packet in the node it holds. -/
theorem delivered_iff_untouched (h : Heap) (qsize : Nat) (m : QueueMem)
    (hm : xskyQueueInit h qsize = some m) (steps : List ReadStep) :
    Always readStep Delivered (.start m) steps ↔ Along readStep Untouched (.start m) steps := by
  obtain ⟨hpos, hlt⟩ := xskyQueueInit_bounds hm
  obtain ⟨m', hm', hrep⟩ := xskyQueueInit_rep h hpos hlt
  rw [hm] at hm'
  cases hm'
  exact always_iff_along (fun s => ReadInv.delivered) readStep_inv untouched_of_delivered
    (readInv_start hrep)

theorem delivered_iff_untouched_two :
    ∃ m, xskyQueueInit Heap.empty 2 = some m ∧
      (Always readStep Delivered (.start m) [.push (fun _ => 7) 1, .pop, .copy] ↔
        Along readStep Untouched (.start m) [.push (fun _ => 7) 1, .pop, .copy]) :=
  ⟨_, rfl, delivered_iff_untouched Heap.empty 2 _ rfl _⟩

/-- A pop that empties the queue hands out the node the next push starts again at. -/
theorem reader_overwritten :
    ∃ m, xskyQueueInit Heap.empty 2 = some m ∧
      ¬ Always readStep Delivered (.start m)
        [.push (fun _ => 7) 1, .pop, .push (fun _ => 8) 1, .copy] := by
  refine ⟨_, rfl, fun h => ?_⟩
  obtain ⟨s, hs, stored, _, hacc⟩ := h.run
  have hgot : (some s).map (·.got) = some [(1, [8])] := by rw [← hs]; decide +kernel
  have haccepted : (some s).map (·.accepted) = some [[7], [8]] := by rw [← hs]; rfl
  simp only [Option.map_some, Option.some.injEq] at hgot haccepted
  rw [hgot, haccepted] at hacc
  simp [asPushed] at hacc

end Dgram
end Xsky
