import Mathlib.Data.List.Nodup
import Xsky.Dgram.Fifo

/-!
# Dgram.Release

The links of the ring over its life, and `xsky_queue_release`, which frees the nodes along them.

`FREE` takes a node off the heap, so to free it again faults, and so does to follow a link of it.

* `Topology`      — the nodes are one cycle of `next`, of which `previous` is the inverse.
* `queueCall_ends` — what a call does to `begin` and `end`.
* `releaseLoop_rep` — the loop of `xsky_queue_release` from any node on.
* `ring_released`  — all of it, after every sequence of calls.
-/

namespace Xsky
namespace Dgram

open Kit

/-- `FREE` of the node at `p`. -/
def Heap.free (h : Heap) (p : Nat) : Option Heap :=
  match h.cell p with
  | none => none
  | some _ =>
    some
      { cell := fun x => if x = p then none else h.cell x
        brk := h.brk
        brk_pos := h.brk_pos
        null := by simp [h.null]
        fresh := fun x hx => by simp [h.fresh x hx] }

/-- The loop of `xskyQueueRelease`, with the iterations left. The addresses given to `FREE` stand
behind the heap, in order. `n` is an `int`, as in `initLoop`. -/
def releaseLoop (list : Nat) : Nat → Nat → Nat → Heap → Option (Heap × List Nat)
  | 0, _, _, h => some (h, [])
  | k + 1, n, tmpA, h =>
    if 2 ^ 31 ≤ n + 1 then none
    else
      let tmpA := if n = 0 then list else tmpA
      match h.cell tmpA with
      | none => none
      | some d =>
        let tmpB := d.next
        match h.free tmpA with
        | none => none
        | some h' =>
          (releaseLoop list k (n + 1) tmpB h').map fun (h'', freed) => (h'', tmpA :: freed)

/-- The heap when the nodes and the queue are freed. -/
def xskyQueueRelease (m : QueueMem) : Option (Heap × List Nat) :=
  releaseLoop m.queue.list m.queue.size 0 0 m.heap

/-! ## The links -/

/-- `nodes` are the nodes on the way from `queue->list` along `next` until it comes back there, each
once, and `previous` leads from each to the one before it. -/
structure Topology (m : QueueMem) (nodes : List Nat) : Prop where
  nodup : nodes.Nodup
  cycle : follow (fun p => (m.heap.cell p).map (·.next)) nodes.length m.queue.list =
    some (nodes, m.queue.list)
  next : ∀ p ∈ nodes, ∃ d e, m.heap.cell p = some d ∧ d.next ∈ nodes ∧
    m.heap.cell d.next = some e ∧ e.previous = p
  previous : ∀ p ∈ nodes, ∃ d e, m.heap.cell p = some d ∧ d.previous ∈ nodes ∧
    m.heap.cell d.previous = some e ∧ e.next = p

/-- `queue->begin` and `queue->end` are `NULL` until a push is accepted, and nodes from then on. -/
structure Ends (nodes : List Nat) (s : QueueMem × List QueueRet) : Prop where
  set : .pushed 0 ∈ s.2 → s.1.queue.begin_ ∈ nodes ∧ s.1.queue.end_ ∈ nodes
  unset : .pushed 0 ∉ s.2 → s.1.queue.begin_ = 0 ∧ s.1.queue.end_ = 0

/-- `xsky_queue_release` comes to its end, with these nodes freed in this order and nothing else. -/
def Releases (m : QueueMem) (nodes : List Nat) : Prop :=
  ∃ h', xskyQueueRelease m = some (h', nodes) ∧ (∀ p ∈ nodes, h'.cell p = none) ∧
    ∀ x, x ∉ nodes → h'.cell x = m.heap.cell x

theorem mem_nodes {n : Nat} {node : Nat → Nat} {p : Nat} :
    p ∈ (List.range n).map node ↔ ∃ i, i < n ∧ node i = p := by
  simp only [List.mem_map, List.mem_range]

theorem IsRing.topology {m : QueueMem} {n : Nat} {node : Nat → Nat} (h : IsRing m n node) :
    Topology m ((List.range n).map node) where
  nodup := by
    refine List.Nodup.map_on (fun i hi j hj heq => ?_) List.nodup_range
    exact h.inj i j (List.mem_range.mp hi) (List.mem_range.mp hj) heq
  cycle := by
    rw [List.length_map, List.length_range, h.list]
    refine follow_ring h.pos fun i hi => ?_
    obtain ⟨d, hd, hnext, -⟩ := h.link i hi
    rw [hd, Option.map_some, hnext]
  next := by
    intro p hp
    obtain ⟨i, hi, rfl⟩ := mem_nodes.mp hp
    have hlt := Nat.mod_lt (i + 1) h.pos
    obtain ⟨d, hd, hnext, -⟩ := h.link i hi
    obtain ⟨e, he, -, hprev⟩ := h.link _ hlt
    refine ⟨d, e, hd, by rw [hnext]; exact mem_nodes.mpr ⟨_, hlt, rfl⟩, by rw [hnext]; exact he, ?_⟩
    rw [hprev, Nat.mod_add_mod, show i + 1 + (n - 1) = i + n by omega, Nat.add_mod_right,
      Nat.mod_eq_of_lt hi]
  previous := by
    intro p hp
    obtain ⟨i, hi, rfl⟩ := mem_nodes.mp hp
    have hlt := Nat.mod_lt (i + (n - 1)) h.pos
    obtain ⟨d, hd, -, hprev⟩ := h.link i hi
    obtain ⟨e, he, hnext, -⟩ := h.link _ hlt
    refine ⟨d, e, hd, by rw [hprev]; exact mem_nodes.mpr ⟨_, hlt, rfl⟩, by rw [hprev]; exact he, ?_⟩
    rw [hnext, Nat.mod_add_mod, show i + (n - 1) + 1 = i + n by omega, Nat.add_mod_right,
      Nat.mod_eq_of_lt hi]

/-! ## Both ends -/

section Ends

variable {m m' : QueueMem} {n b : Nat} {node : Nat → Nat} {xs : List Packet}

theorem Rep.ends (h : Rep m n node b xs) (hne : xs ≠ []) :
    m.queue.begin_ ∈ (List.range n).map node ∧ m.queue.end_ ∈ (List.range n).map node := by
  rw [h.begin_ hne, h.end_ hne]
  exact ⟨mem_nodes.mpr ⟨_, ringAt_lt _ _ h.ring.pos, rfl⟩,
    mem_nodes.mpr ⟨_, ringAt_lt _ _ h.ring.pos, rfl⟩⟩

/-- A push that is accepted leaves the queue with a packet. -/
theorem fifoCall_pushed {c : QueueCall} (h : (fifoCall n xs c).1 = .pushed 0) :
    (fifoCall n xs c).2 ≠ [] := by
  cases c with
  | push data size =>
    simp only [fifoCall] at h ⊢
    split at h
    · cases h
    · split at h
      · cases h
      · rename_i hsize hfull
        simp [hsize, hfull]
  | pop =>
    cases xs with
    | nil => cases h
    | cons x xs => cases h
  | reset => cases h

/-- A pop leaves `begin` at the node after the one it returns. -/
theorem popLocked_ends {x : Packet} {p : Nat} (h : Rep m n node b (x :: xs))
    (hp : popLocked m = some (p, m')) :
    m'.queue.begin_ ∈ (List.range n).map node ∧ m'.queue.end_ ∈ (List.range n).map node := by
  have hlt := ringAt_lt b 0 h.ring.pos
  obtain ⟨d, hd, hnext, -⟩ := h.ring.link _ hlt
  rw [popLocked, h.begin_ (by simp), hd] at hp
  cases hp
  simp only [hnext]
  exact ⟨mem_nodes.mpr ⟨_, Nat.mod_lt _ h.ring.pos, rfl⟩, (h.ends (by simp)).2⟩

/-- A call leaves both ends as they are, or at nodes. -/
theorem queueCall_ends (h : Rep m n node b xs) {c : QueueCall} {ret : QueueRet}
    (hc : queueCall m c = some (ret, m')) :
    (ret ≠ .pushed 0 ∧ m'.queue.begin_ = m.queue.begin_ ∧ m'.queue.end_ = m.queue.end_) ∨
      ((xs ≠ [] ∨ ret = .pushed 0) ∧
        m'.queue.begin_ ∈ (List.range n).map node ∧ m'.queue.end_ ∈ (List.range n).map node) := by
  obtain ⟨m1, b1, hc1, hrep⟩ := queueCall_rep h c
  rw [hc] at hc1
  cases hc1
  by_cases hpushed : (fifoCall n xs c).1 = .pushed 0
  · exact .inr ⟨.inr hpushed, hrep.ends (fifoCall_pushed hpushed)⟩
  · cases c with
    | push data size =>
      refine .inl ⟨hpushed, ?_⟩
      simp only [queueCall, Option.map_eq_some_iff, Prod.mk.injEq] at hc
      obtain ⟨⟨r, m2⟩, hpush, hr, rfl⟩ := hc
      have hne : r ≠ 0 := by
        rintro rfl
        exact hpushed hr.symm
      rw [xskyQueuePush_refused hpush hne]
      exact ⟨rfl, rfl⟩
    | pop =>
      cases xs with
      | nil =>
        have hcount : m.queue.have_ = 0 := h.count
        simp only [queueCall, xskyQueuePop, if_pos hcount] at hc
        cases hc
        exact .inl ⟨hpushed, rfl, rfl⟩
      | cons x xs =>
        have hcount : m.queue.have_ ≠ 0 := by
          rw [h.count]
          simp
        refine .inr ⟨.inl (by simp), ?_⟩
        simp only [queueCall, xskyQueuePop, if_neg hcount] at hc
        split at hc
        · cases hc
        · rename_i p m2 hpop
          have hends := popLocked_ends h hpop
          split at hc
          · cases hc
          · obtain ⟨d, -, heq⟩ := Option.map_eq_some_iff.mp hc
            rw [← (Prod.mk.inj heq).2]
            exact hends
    | reset =>
      cases hc
      exact .inl ⟨hpushed, rfl, rfl⟩

end Ends

/-! ## The release -/

theorem Heap.free_of_cell {h : Heap} {p : Nat} {d : XskyQueueData} (hc : h.cell p = some d) :
    ∃ h', h.free p = some h' ∧ ∀ x, h'.cell x = if x = p then none else h.cell x := by
  rw [Heap.free, hc]
  exact ⟨_, rfl, fun _ => rfl⟩

/-- The loop at node `j`, with the nodes before it freed. -/
theorem releaseLoop_rep {n : Nat} {node : Nat → Nat} (hlt : n < 2 ^ 31)
    (hinj : ∀ i j, i < n → j < n → node i = node j → i = j) (k : Nat) {j tmpA : Nat} {h : Heap}
    (hj : j + k = n) (htmp : 0 < j → 0 < k → tmpA = node j)
    (hlink : ∀ i, j ≤ i → i < n → ∃ d, h.cell (node i) = some d ∧ d.next = node ((i + 1) % n)) :
    ∃ h', releaseLoop (node 0) k j tmpA h =
        some (h', (List.range k).map fun i => node (j + i)) ∧
      (∀ i, j ≤ i → i < n → h'.cell (node i) = none) ∧
      ∀ x, (∀ i, j ≤ i → i < n → node i ≠ x) → h'.cell x = h.cell x := by
  induction k generalizing j tmpA h with
  | zero => exact ⟨h, rfl, fun i _ _ => by omega, fun _ _ => rfl⟩
  | succ k ih =>
    have htmpA : (if j = 0 then node 0 else tmpA) = node j := by
      split
      · rename_i h0
        rw [h0]
      · exact htmp (by omega) (by omega)
    obtain ⟨d, hd, hnext⟩ := hlink j (Nat.le_refl j) (by omega)
    obtain ⟨h1, hfree, hcell⟩ := Heap.free_of_cell hd
    have hrest : ∀ i, j + 1 ≤ i → i < n →
        ∃ d, h1.cell (node i) = some d ∧ d.next = node ((i + 1) % n) := by
      intro i hi hin
      have hne : node i ≠ node j := fun heq => by
        have := hinj i j hin (by omega) heq
        omega
      rw [hcell, if_neg hne]
      exact hlink i (by omega) hin
    obtain ⟨h', hloop, hfreed, hkept⟩ := @ih (j + 1) d.next h1 (by omega) (fun _ hk => by
      rw [hnext, Nat.mod_eq_of_lt (by omega)]) hrest
    refine ⟨h', ?_, fun i hi hin => ?_, fun x hx => ?_⟩
    · rw [releaseLoop, if_neg (by omega)]
      simp only [htmpA, hd, hfree, hloop, Option.map_some, List.range_succ_eq_map, List.map_cons,
        List.map_map, Nat.add_zero]
      congr 3
      refine List.map_congr_left fun i _ => ?_
      simp only [Function.comp, Nat.add_assoc, Nat.add_comm 1]
    · by_cases hij : i = j
      · subst hij
        rw [hkept _ fun i' hi' hin' heq => ?_, hcell, if_pos rfl]
        have := hinj i' i hin' hin heq
        omega
      · exact hfreed i (by omega) hin
    · rw [hkept x fun i hi hin => hx i (by omega) hin, hcell,
        if_neg fun heq => hx j (Nat.le_refl j) (by omega) heq.symm]

theorem IsRing.releases {m : QueueMem} {n : Nat} {node : Nat → Nat} (h : IsRing m n node) :
    Releases m ((List.range n).map node) := by
  obtain ⟨h', hloop, hfreed, hkept⟩ := @releaseLoop_rep n node h.lt h.inj n 0 0 m.heap
    (Nat.zero_add n) (fun h0 => by omega) fun i _ hi => by
      obtain ⟨d, hd, hnext, -⟩ := h.link i hi
      exact ⟨d, hd, hnext⟩
  refine ⟨h', ?_, fun p hp => ?_, fun x hx => ?_⟩
  · rw [xskyQueueRelease, h.list, h.size, hloop]
    simp only [Nat.zero_add]
  · obtain ⟨i, hi, rfl⟩ := mem_nodes.mp hp
    exact hfreed i (Nat.zero_le i) hi
  · exact hkept x fun i _ hi heq => hx (mem_nodes.mpr ⟨i, hi, heq⟩)

/-! ## The nodes allocated -/

theorem Heap.store_brk {h h' : Heap} {p : Nat} {f : XskyQueueData → XskyQueueData}
    (hs : h.store p f = some h') : h'.brk = h.brk := by
  rw [Heap.store] at hs
  split at hs
  · cases hs
  · cases hs
    rfl

theorem initLoop_brk (k : Nat) {n : Nat} {h h' : Heap} {l l' : InitLocals}
    (hl : initLoop k n h l = some (h', l')) : h'.brk = h.brk + k := by
  induction k generalizing n h l with
  | zero =>
    cases hl
    rfl
  | succ k ih =>
    rw [initLoop] at hl
    split at hl
    · cases hl
    · simp only at hl
      split at hl
      · rw [ih hl, Heap.malloc_brk]
        omega
      · split at hl
        · cases hl
        · rename_i h2 hs2
          split at hl
          · cases hl
          · rename_i h3 hs3
            rw [ih hl, Heap.store_brk hs3, Heap.store_brk hs2, Heap.malloc_brk]
            omega

/-- `xskyQueueInit` takes as many addresses as there are to be nodes, and leaves both ends unset. -/
theorem xskyQueueInit_brk {h : Heap} {qsize : Nat} {m : QueueMem}
    (hm : xskyQueueInit h qsize = some m) :
    m.heap.brk = h.brk + qsize ∧ m.queue.begin_ = 0 ∧ m.queue.end_ = 0 := by
  rw [xskyQueueInit] at hm
  split at hm
  · cases hm
  · rename_i h1 l hl
    split at hm
    · cases hm
    · rename_i h2 hs2
      split at hm
      · cases hm
      · rename_i h3 hs3
        cases hm
        exact ⟨by rw [Heap.store_brk hs3, Heap.store_brk hs2, initLoop_brk qsize hl], rfl, rfl⟩

theorem queueStep_ends {n b : Nat} {node : Nat → Nat} {xs : List Packet}
    {s s' : QueueMem × List QueueRet} {c : QueueCall} (h : Rep s.1 n node b xs)
    (hends : Ends ((List.range n).map node) s) (hs : queueStep s c = some s') :
    Ends ((List.range n).map node) s' := by
  obtain ⟨⟨ret, m'⟩, hc, rfl⟩ := Option.map_eq_some_iff.mp hs
  have hmem : .pushed 0 ∈ s.2 ++ [ret] ↔ .pushed 0 ∈ s.2 ∨ ret = .pushed 0 := by
    simp only [List.mem_append, List.mem_singleton, eq_comm]
  obtain ⟨hret, hbegin, hend⟩ | ⟨hset, hnodes⟩ := queueCall_ends h hc
  · constructor
    · intro hin
      simp only [hbegin, hend]
      exact hends.set ((hmem.mp hin).resolve_right hret)
    · intro hout
      simp only [hbegin, hend]
      exact hends.unset fun hin => hout (hmem.mpr (.inl hin))
  · refine ⟨fun _ => hnodes, fun hout => ?_⟩
    -- a queue with a packet was pushed to
    exfalso
    obtain hne | hret := hset
    · obtain ⟨h0, -⟩ := hends.unset fun hin => hout (hmem.mpr (.inl hin))
      obtain ⟨i, hi, hnode⟩ := mem_nodes.mp (h.ends hne).1
      obtain ⟨d, hd, -⟩ := h.ring.link i hi
      exact Heap.ne_null hd (hnode.trans h0)
    · exact hout (hmem.mpr (.inr hret))

/-- The ring of `xskyQueueInit( qsize )` is made of the nodes allocated, in one cycle, in whatever
order packets are pushed, popped and dropped, and `xskyQueueRelease` frees each of them once. -/
theorem ring_released (h : Heap) {qsize : Nat} (hpos : 1 ≤ qsize) (hlt : qsize < 2 ^ 31)
    (calls : List QueueCall) :
    ∃ m nodes, xskyQueueInit h qsize = some m ∧ nodes.length = qsize ∧
      (∀ p, p ∈ nodes ↔ h.brk ≤ p ∧ p < m.heap.brk) ∧
      Always queueStep
        (fun s => Topology s.1 nodes ∧ Ends nodes s ∧ Releases s.1 nodes) (m, []) calls := by
  obtain ⟨m, hinit, hrep⟩ := xskyQueueInit_rep h hpos hlt
  obtain ⟨hbrk, hunset⟩ := xskyQueueInit_brk hinit
  refine ⟨m, (List.range qsize).map fun i => h.brk + i, hinit, by simp, fun p => ?_, ?_⟩
  · rw [mem_nodes, hbrk]
    constructor
    · rintro ⟨i, hi, rfl⟩
      omega
    · intro hp
      exact ⟨p - h.brk, by omega, by omega⟩
  · have hstep : ∀ (s : QueueMem × List QueueRet) (c : QueueCall),
        ((∃ b xs, Rep s.1 qsize (fun i => h.brk + i) b xs) ∧
          Ends ((List.range qsize).map fun i => h.brk + i) s) → True →
        ∃ s', queueStep s c = some s' ∧
          (∃ b xs, Rep s'.1 qsize (fun i => h.brk + i) b xs) ∧
          Ends ((List.range qsize).map fun i => h.brk + i) s' := by
      rintro s c ⟨⟨b, xs, hrep⟩, hends⟩ -
      obtain ⟨m', b', hc, hrep'⟩ := queueCall_rep hrep c
      have hs : queueStep s c = some (m', s.2 ++ [(fifoCall qsize xs c).1]) := by
        simp only [queueStep, hc, Option.map_some]
      exact ⟨_, hs, ⟨b', _, hrep'⟩, queueStep_ends hrep hends hs⟩
    have hstart : Ends ((List.range qsize).map fun i => h.brk + i) (m, []) :=
      ⟨fun hin => absurd hin List.not_mem_nil, fun _ => hunset⟩
    refine (always_of_along hstep ⟨⟨0, [], hrep⟩, hstart⟩
      (along_of_forall fun _ _ => trivial)).mono ?_
    rintro s ⟨⟨b, xs, hrep⟩, hends⟩
    exact ⟨hrep.ring.topology, hends, hrep.ring.releases⟩

/-- Three nodes; the push behind the reset goes to the first again. -/
theorem ring_released_three :
    ∃ m nodes, xskyQueueInit Heap.empty 3 = some m ∧ nodes.length = 3 ∧
      (∀ p, p ∈ nodes ↔ Heap.empty.brk ≤ p ∧ p < m.heap.brk) ∧
      Always queueStep (fun s => Topology s.1 nodes ∧ Ends nodes s ∧ Releases s.1 nodes) (m, [])
        [.push (fun _ => 7) 1, .push (fun _ => 8) 1, .pop, .reset, .push (fun _ => 9) 1] :=
  ring_released Heap.empty (by omega) (by omega) _

end Dgram
end Xsky
