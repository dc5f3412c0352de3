import Xsky.Kit.Ring
import Xsky.Kit.Runs
import Xsky.Dgram.Queue

/-!
# Dgram.Fifo

What the ring is for: a bounded queue of packets. `Rep m n node b xs` relates the two: the nodes
`node 0 .. node (n - 1)` are linked into a ring starting at `queue->list`, and the window of it
that starts at place `b` holds the packets `xs`.

* `xskyQueueInit_rep`: a fresh ring represents the empty queue.
* `pushLocked_rep`, `popLocked_rep`, `xskyQueueReset_rep`: one lemma for each operation. The window
  of an empty queue moves to place 0 at the next push, wherever it was left.
* `xskyQueue_refines_fifo`: every sequence of calls returns what the bounded queue returns.
-/

namespace Xsky
namespace Dgram

open Kit

/-- The `n` nodes of the queue are linked both ways into one ring, from `queue->list` on. -/
structure IsRing (m : QueueMem) (n : Nat) (node : Nat → Nat) : Prop where
  pos : 0 < n
  lt : n < 2 ^ 31
  inj : ∀ i j, i < n → j < n → node i = node j → i = j
  list : m.queue.list = node 0
  size : m.queue.size = n
  link : ∀ i, i < n → ∃ d, m.heap.cell (node i) = some d ∧
    d.next = node ((i + 1) % n) ∧ d.previous = node ((i + (n - 1)) % n)

/-- Node `j` holds the packet `p`. -/
def Stored (m : QueueMem) (node : Nat → Nat) (j : Nat) (p : Packet) : Prop :=
  ∃ d, m.heap.cell (node j) = some d ∧ d.size = p.length ∧ d.packet = p

structure Rep (m : QueueMem) (n : Nat) (node : Nat → Nat) (b : Nat) (xs : List Packet) :
    Prop where
  ring : IsRing m n node
  window : Window n (Stored m node) b xs
  count : m.queue.have_ = xs.length
  begin_ : xs ≠ [] → m.queue.begin_ = node (ringAt n b 0)
  end_ : xs ≠ [] → m.queue.end_ = node (ringAt n b (xs.length - 1))

/-! ## A fresh ring -/

/-- The loop of `xskyQueueInit` after `n` iterations: nodes at the next `n` addresses, linked in
order but not yet around. -/
structure Chain (base n : Nat) (h : Heap) (l : InitLocals) : Prop where
  brk : h.brk = base + n
  list : l.list = base
  tmp : l.tmp = base + (n - 1)
  tmpPre : l.tmpPre = l.tmp
  node : ∀ i, i < n → ∃ d, h.cell (base + i) = some d ∧
    (i + 1 < n → d.next = base + (i + 1)) ∧ (0 < i → d.previous = base + (i - 1))

theorem chain_first (h : Heap) : Chain h.brk 1 h.malloc.2 ⟨h.brk, h.brk, h.brk⟩ := by
  refine ⟨rfl, rfl, rfl, rfl, fun i hi => ?_⟩
  have : i = 0 := by omega
  subst this
  exact ⟨⟨0, 0, 0, Vector.replicate _ 0⟩, by simp [Heap.malloc_cell], fun h => by omega,
    fun h => by omega⟩

/-- One more iteration. -/
theorem chain_next {base n : Nat} {h : Heap} {l : InitLocals} (hn : 0 < n)
    (hc : Chain base n h l) :
    ∃ h2 h3, h.malloc.2.store l.tmpPre (fun d => { d with next := h.malloc.1 }) = some h2 ∧
      h2.store h.malloc.1 (fun d => { d with previous := l.tmpPre }) = some h3 ∧
      Chain base (n + 1) h3 ⟨l.list, h.malloc.1, h.malloc.1⟩ := by
  have htmp : h.malloc.1 = base + n := hc.brk
  have hpre : l.tmpPre = base + (n - 1) := hc.tmpPre.trans hc.tmp
  obtain ⟨d, hd, hdn, hdp⟩ := hc.node (n - 1) (by omega)
  have hd1 : h.malloc.2.cell l.tmpPre = some d := by
    rw [Heap.malloc_cell, hpre, if_neg (by rw [hc.brk]; omega), hd]
  have hnew : (h.malloc.2.update l.tmpPre (fun d => { d with next := h.malloc.1 })).cell
      h.malloc.1 = some ⟨0, 0, 0, Vector.replicate _ 0⟩ := by
    rw [Heap.update_cell_other (by omega), Heap.malloc_cell, htmp, hc.brk, if_pos rfl]
  refine ⟨_, _, Heap.store_of_cell hd1 _, Heap.store_of_cell hnew _, ?_, hc.list, ?_, rfl, ?_⟩
  · simp only [Heap.update_brk, Heap.malloc_brk, hc.brk]
    omega
  · simp only [htmp]
    omega
  · intro i hi
    by_cases hlast : i = n
    · -- the new node
      subst hlast
      refine ⟨{ (⟨0, 0, 0, Vector.replicate _ 0⟩ : XskyQueueData) with previous := l.tmpPre },
        ?_, fun h => by omega, fun _ => hpre⟩
      rw [← htmp]
      exact Heap.update_cell_same hnew _
    · by_cases hprev : i = n - 1
      · -- the node before it, which now points to it
        subst hprev
        refine ⟨{ d with next := h.malloc.1 }, ?_, fun _ => by simp only [htmp]; omega, hdp⟩
        rw [Heap.update_cell_other (by omega), ← hpre]
        exact Heap.update_cell_same hd1 _
      · obtain ⟨e, he, hen, hep⟩ := hc.node i (by omega)
        refine ⟨e, ?_, fun _ => hen (by omega), hep⟩
        rw [Heap.update_cell_other (by omega), Heap.update_cell_other (by omega),
          Heap.malloc_cell, if_neg (by rw [hc.brk]; omega), he]

theorem initLoop_chain {base : Nat} :
    ∀ (k n : Nat) (h : Heap) (l : InitLocals), 0 < n → n + k < 2 ^ 31 → Chain base n h l →
      ∃ h' l', initLoop k n h l = some (h', l') ∧ Chain base (n + k) h' l' := by
  intro k
  induction k with
  | zero => intro n h l _ _ hc; exact ⟨h, l, rfl, hc⟩
  | succ k ih =>
    intro n h l hn hlt hc
    obtain ⟨h2, h3, hs2, hs3, hc'⟩ := chain_next hn hc
    obtain ⟨h', l', hl, hc''⟩ := ih (n + 1) h3 _ (by omega) (by omega) hc'
    refine ⟨h', l', ?_, by rw [show n + (k + 1) = n + 1 + k by omega]; exact hc''⟩
    rw [initLoop, if_neg (by omega)]
    simp only [if_neg (Nat.ne_of_gt hn), hs2, hs3]
    exact hl

/-- A count that does not fit an `int` makes the loop overflow its counter. -/
theorem initLoop_overflow :
    ∀ (k n : Nat) (h : Heap) (l : InitLocals), 0 < k → 2 ^ 31 ≤ n + k → n < 2 ^ 31 →
      initLoop k n h l = none := by
  intro k
  induction k with
  | zero => intro n h l hk; omega
  | succ k ih =>
    intro n h l _ hge hlt
    rw [initLoop]
    split
    · rfl
    · rename_i hn
      have hk : 0 < k := by omega
      simp only []
      split
      · exact ih _ _ _ hk (by omega) (by omega)
      · split
        · rfl
        · split
          · rfl
          · exact ih _ _ _ hk (by omega) (by omega)

theorem xskyQueueInit_bounds {h : Heap} {qsize : Nat} {m : QueueMem}
    (hm : xskyQueueInit h qsize = some m) : 1 ≤ qsize ∧ qsize < 2 ^ 31 := by
  constructor
  · apply Nat.pos_of_ne_zero
    rintro rfl
    simp [xskyQueueInit, initLoop, Heap.store, h.null] at hm
  · apply Nat.lt_of_not_le
    intro hge
    simp [xskyQueueInit, initLoop_overflow qsize 0 h _ (by omega) (by omega) (by omega)] at hm

theorem xskyQueueInit_rep (h : Heap) {qsize : Nat} (hpos : 1 ≤ qsize) (hlt : qsize < 2 ^ 31) :
    ∃ m, xskyQueueInit h qsize = some m ∧ Rep m qsize (fun i => h.brk + i) 0 [] := by
  obtain ⟨k, rfl⟩ : ∃ k, qsize = 1 + k := ⟨qsize - 1, by omega⟩
  obtain ⟨h1, l, hl, hc⟩ := initLoop_chain k 1 h.malloc.2 _ Nat.one_pos hlt (chain_first h)
  have hloop : initLoop (1 + k) 0 h ⟨0, 0, 0⟩ = some (h1, l) := by
    rw [Nat.add_comm 1 k, initLoop, if_neg (by omega)]
    exact hl
  have htmp := hc.tmp
  obtain ⟨d, hd, hdn, hdp⟩ := hc.node 0 (by omega)
  have hd1 : h1.cell l.list = some d := by rw [hc.list]; exact hd
  obtain ⟨e, he, hen, hep⟩ : ∃ e, (h1.update l.list (fun d => { d with previous := l.tmp })).cell
      l.tmp = some e ∧ (0 < k → e.previous = h.brk + (k - 1)) ∧ (k = 0 → e.previous = l.tmp) := by
    by_cases hk : k = 0
    · have : l.tmp = l.list := by rw [htmp, hc.list]; omega
      exact ⟨{ d with previous := l.tmp }, by rw [this]; exact Heap.update_cell_same hd1 _,
        fun h => by omega, fun _ => rfl⟩
    · obtain ⟨e, he, _, hep⟩ := hc.node k (by omega)
      refine ⟨e, ?_, fun h => hep h, fun h => absurd h hk⟩
      rw [Heap.update_cell_other (by rw [htmp, hc.list]; omega), htmp,
        show 1 + k - 1 = k by omega]
      exact he
  refine ⟨_, by
    simp only [xskyQueueInit, hloop, Heap.store_of_cell hd1, Heap.store_of_cell he]; rfl,
    ?_, .nil, rfl, fun h => absurd rfl h, fun h => absurd rfl h⟩
  refine ⟨by omega, hlt, fun i j _ _ h => by simpa using h, hc.list, rfl, fun i hi => ?_⟩
  by_cases hlast : i = k
  · -- the last node: `next` is patched to the first one
    subst hlast
    refine ⟨{ e with next := l.list }, ?_, ?_, ?_⟩
    · show _ = _
      rw [show h.brk + i = l.tmp by rw [htmp]; omega]
      exact Heap.update_cell_same he _
    · simp only [hc.list, show i + 1 = 1 + i by omega, Nat.mod_self, Nat.add_zero]
    · by_cases h0 : i = 0
      · subst h0
        simp only [hep, htmp]
      · simp only [hen (by omega)]
        rw [show i + (1 + i - 1) = (i - 1) + (1 + i) by omega, Nat.add_mod_right,
          Nat.mod_eq_of_lt (by omega)]
  · have hne : h.brk + i ≠ l.tmp := by rw [htmp]; omega
    by_cases h0 : i = 0
    · -- the first node: `previous` is patched to the last one
      subst h0
      refine ⟨{ d with previous := l.tmp }, ?_, ?_, ?_⟩
      · simp only []
        rw [Heap.update_cell_other hne, show h.brk + 0 = l.list from hc.list.symm]
        exact Heap.update_cell_same hd1 _
      · simp only [hdn (by omega)]
        rw [Nat.mod_eq_of_lt (by omega)]
      · simp only [htmp, Nat.zero_add]
        rw [Nat.mod_eq_of_lt (by omega)]
    · obtain ⟨f, hf, hfn, hfp⟩ := hc.node i hi
      refine ⟨f, ?_, ?_, ?_⟩
      · simp only []
        rw [Heap.update_cell_other hne, Heap.update_cell_other (by rw [hc.list]; omega), hf]
      · rw [hfn (by omega), Nat.mod_eq_of_lt (by omega)]
      · rw [hfp (by omega), show i + (1 + k - 1) = (i - 1) + (1 + k) by omega,
          Nat.add_mod_right, Nat.mod_eq_of_lt (by omega)]

/-! ## The operations -/

/-- A change of a node's packet leaves the links as they were. -/
theorem IsRing.fill {m m' : QueueMem} {n : Nat} {node : Nat → Nat} (hr : IsRing m n node)
    {p : Nat} {data : Mem} {size : Nat} (hheap : m'.heap = m.heap.update p (·.fill data size))
    (hlist : m'.queue.list = m.queue.list) (hsize : m'.queue.size = m.queue.size) :
    IsRing m' n node := by
  refine ⟨hr.pos, hr.lt, hr.inj, hlist.trans hr.list, hsize.trans hr.size, fun i hi => ?_⟩
  obtain ⟨d, hd, hn, hp⟩ := hr.link i hi
  by_cases h : node i = p
  · refine ⟨d.fill data size, ?_, hn, hp⟩
    rw [hheap, ← h]
    exact Heap.update_cell_same hd _
  · exact ⟨d, by rw [hheap, Heap.update_cell_other h, hd], hn, hp⟩

/-- Where the next packet goes: the place after the window, which for an empty queue starts at
place 0 again. -/
def pushPlace (b : Nat) (xs : List Packet) : Nat := if xs = [] then 0 else b

theorem Rep.pushTarget {m : QueueMem} {n b : Nat} {node : Nat → Nat} {xs : List Packet}
    (h : Rep m n node b xs) :
    Dgram.pushTarget m = some (node (ringAt n (pushPlace b xs) xs.length)) := by
  cases xs with
  | nil =>
    have hc : m.queue.have_ = 0 := h.count
    simp [Dgram.pushTarget, hc, pushPlace, ringAt, h.ring.list]
  | cons x xs =>
    have hc : m.queue.have_ ≠ 0 := by rw [h.count]; simp
    obtain ⟨d, hd, hn, _⟩ := h.ring.link _ (ringAt_lt b ((x :: xs).length - 1) h.ring.pos)
    rw [← h.end_ (by simp)] at hd
    simp only [Dgram.pushTarget, if_neg hc, hd, Option.map_some, hn, ringAt_succ, pushPlace,
      reduceCtorEq, if_false, List.length_cons, Nat.add_sub_cancel]

/-- A push into an empty queue may start the window anywhere. -/
theorem Rep.restart {m : QueueMem} {n b : Nat} {node : Nat → Nat} {xs : List Packet}
    (h : Rep m n node b xs) : Rep m n node (pushPlace b xs) xs := by
  unfold pushPlace
  split
  · rename_i hx
    subst hx
    exact ⟨h.ring, .nil, h.count, fun hx => absurd rfl hx, fun hx => absurd rfl hx⟩
  · exact h

theorem pushLocked_rep {m : QueueMem} {n b : Nat} {node : Nat → Nat} {xs : List Packet}
    (h : Rep m n node b xs) (data : Mem) {size : Nat} (hs : size ≤ xskyMtu)
    (hlt : xs.length < n) :
    ∃ m', pushLocked m data size = some m' ∧
      m'.heap = m.heap.update (node (ringAt n (pushPlace b xs) xs.length)) (·.fill data size) ∧
      Rep m' n node (pushPlace b xs) (xs ++ [packetAt data size]) := by
  have ht := h.pushTarget
  have h' := h.restart
  generalize hb : pushPlace b xs = b' at ht h' ⊢
  have hplace : ringAt n b' xs.length < n := ringAt_lt _ _ h.ring.pos
  obtain ⟨d, hd, _, _⟩ := h.ring.link _ hplace
  refine ⟨_, by simp only [pushLocked, ht, Heap.store_of_cell hd]; rfl, rfl, ?_⟩
  refine ⟨h.ring.fill rfl rfl rfl, h'.window.snoc hlt ?_ ?_, ?_, fun _ => ?_, fun _ => ?_⟩
  · exact ⟨d.fill data size, Heap.update_cell_same hd _, by simp [XskyQueueData.fill],
      d.fill_packet data hs⟩
  · rintro j y hj hne ⟨e, he, hy⟩
    refine ⟨e, ?_, hy⟩
    rw [← he]
    exact Heap.update_cell_other (fun heq => hne (h.ring.inj _ _ hj hplace heq)) _
  · have := h.ring.lt
    simp only [h.count, List.length_append, List.length_singleton]
    omega
  · simp only []
    split
    · rename_i h0
      rw [h.count, List.length_eq_zero_iff] at h0
      subst h0
      rfl
    · rename_i h0
      have hx : xs ≠ [] := by
        rintro rfl
        exact h0 h.count
      rw [h'.begin_ hx]
  · simp only [List.length_append, List.length_singleton, Nat.add_sub_cancel]

theorem popLocked_rep {m : QueueMem} {n b : Nat} {node : Nat → Nat} {x : Packet}
    {xs : List Packet} (h : Rep m n node b (x :: xs)) :
    ∃ m', popLocked m = some (node (ringAt n b 0), m') ∧ m'.heap = m.heap ∧
      Rep m' n node (b + 1) xs := by
  have hb := h.begin_ (by simp)
  obtain ⟨d, hd, hn, _⟩ := h.ring.link _ (ringAt_lt b 0 h.ring.pos)
  have hc : m.queue.have_ = xs.length + 1 := h.count
  have hf := h.window.fits
  have hlt := h.ring.lt
  simp only [List.length_cons] at hf
  let q : XskyQueue :=
    { m.queue with begin_ := d.next, have_ := (m.queue.have_ + (2 ^ 64 - 1)) % 2 ^ 64 }
  refine ⟨⟨m.heap, q⟩, by simp only [popLocked, hb, hd, q], rfl, ?_⟩
  refine ⟨⟨h.ring.pos, h.ring.lt, h.ring.inj, h.ring.list, h.ring.size, h.ring.link⟩,
    h.window.tail, ?_, fun _ => ?_, fun hx => ?_⟩
  · simp only [q, hc]
    omega
  · simp only [q, hn, ringAt_succ, ringAt_shift]
  · have he := h.end_ (by simp)
    have hpos : 0 < xs.length := List.length_pos_iff.mpr hx
    simp only [List.length_cons, Nat.add_sub_cancel] at he
    rw [he, ringAt_shift, show xs.length - 1 + 1 = xs.length by omega]

theorem xskyQueueReset_rep {m : QueueMem} {n b : Nat} {node : Nat → Nat} {xs : List Packet}
    (h : Rep m n node b xs) : Rep (xskyQueueReset m) n node b [] :=
  ⟨⟨h.ring.pos, h.ring.lt, h.ring.inj, h.ring.list, h.ring.size, h.ring.link⟩, .nil, rfl,
    fun hx => absurd rfl hx, fun hx => absurd rfl hx⟩

theorem pushTest_rep {m : QueueMem} {n b : Nat} {node : Nat → Nat} {xs : List Packet}
    (h : Rep m n node b xs) (size : Nat) :
    pushTest m size =
      if size > xskyMtu then some (-1) else if xs.length = n then some (-2) else none := by
  simp only [pushTest, h.ring.size, h.count, eq_comm (a := n)]

/-- The packets found by following `next` from `queue->begin`, `have` of them. -/
def walk (h : Heap) : Nat → Nat → List Packet
  | 0, _ => []
  | k + 1, p =>
    match h.cell p with
    | none => []
    | some d => d.packet :: walk h k d.next

def queued (m : QueueMem) : List Packet := walk m.heap m.queue.have_ m.queue.begin_

theorem walk_window {m : QueueMem} {n : Nat} {node : Nat → Nat} (hr : IsRing m n node) :
    ∀ (xs : List Packet) (b : Nat), Window n (Stored m node) b xs →
      walk m.heap xs.length (node (ringAt n b 0)) = xs := by
  intro xs
  induction xs with
  | nil => intro b _; rfl
  | cons x xs ih =>
    intro b hw
    obtain ⟨d, hd, _, hpkt⟩ := hw.head
    obtain ⟨d', hd', hn, _⟩ := hr.link _ (ringAt_lt b 0 hr.pos)
    rw [hd] at hd'
    cases hd'
    have := ih (b + 1) hw.tail
    rw [ringAt_shift, ← ringAt_succ] at this
    simp only [List.length_cons, walk, hd, hpkt, hn, this]

theorem Rep.queued {m : QueueMem} {n b : Nat} {node : Nat → Nat} {xs : List Packet}
    (h : Rep m n node b xs) : Dgram.queued m = xs := by
  rw [Dgram.queued, h.count]
  cases xs with
  | nil => rfl
  | cons x xs =>
    rw [h.begin_ (by simp)]
    exact walk_window h.ring _ b h.window

theorem xskyQueuePush_refused {m m' : QueueMem} {data : Mem} {size : Nat} {r : Int}
    (h : xskyQueuePush m data size = some (r, m')) (hr : r ≠ 0) : m' = m := by
  unfold xskyQueuePush at h
  split at h
  · cases h; rfl
  · simp only [Option.map_eq_some_iff, Prod.mk.injEq] at h
    obtain ⟨_, _, h0, _⟩ := h
    exact absurd h0.symm hr

theorem xskyQueuePush_accepted {m : QueueMem} {n b : Nat} {node : Nat → Nat} {xs : List Packet}
    (h : Rep m n node b xs) (data : Mem) {size : Nat} (hs : size ≤ xskyMtu)
    (hlt : xs.length < n) :
    ∃ m', xskyQueuePush m data size = some (0, m') ∧
      Rep m' n node (pushPlace b xs) (xs ++ [packetAt data size]) := by
  obtain ⟨m', hp, _, hrep⟩ := pushLocked_rep h data hs hlt
  refine ⟨m', ?_, hrep⟩
  simp [xskyQueuePush, pushTest_rep h, Nat.not_lt.mpr hs, Nat.ne_of_lt hlt, hp]

/-! ## The bounded queue -/

inductive QueueCall where
  | push (data : Mem) (size : Nat)
  | pop
  | reset

/-- What a call returns; for the node of `xskyQueuePop`, its size and packet. -/
inductive QueueRet where
  | pushed (ret : Int)
  | popped (node : Option (Nat × Packet))
  | done

def queueCall (m : QueueMem) : QueueCall → Option (QueueRet × QueueMem)
  | .push data size => (xskyQueuePush m data size).map fun (ret, m') => (.pushed ret, m')
  | .pop =>
    match xskyQueuePop m with
    | none => none
    | some (p, m') =>
      if p = 0 then some (.popped none, m')
      else (m'.heap.cell p).map fun d => (.popped (some (d.size, d.packet)), m')
  | .reset => some (.done, xskyQueueReset m)

/-- A call of the bounded queue that the ring is meant to be. -/
def fifoCall (qsize : Nat) (xs : List Packet) : QueueCall → QueueRet × List Packet
  | .push data size =>
    if size > xskyMtu then (.pushed (-1), xs)
    else if xs.length = qsize then (.pushed (-2), xs)
    else (.pushed 0, xs ++ [packetAt data size])
  | .pop =>
    match xs with
    | [] => (.popped none, [])
    | x :: xs => (.popped (some (x.length, x)), xs)
  | .reset => (.done, [])

/-- A call, with what the calls before it returned. -/
def queueStep : QueueMem × List QueueRet → QueueCall → Option (QueueMem × List QueueRet)
  | (m, rets), c => (queueCall m c).map fun (ret, m') => (m', rets ++ [ret])

def fifoStep (qsize : Nat) : List Packet × List QueueRet → QueueCall → List Packet × List QueueRet
  | (xs, rets), c => ((fifoCall qsize xs c).2, rets ++ [(fifoCall qsize xs c).1])

/-- The packets stored and the values returned after `calls`, by the bounded queue. -/
def fifo (qsize : Nat) (calls : List QueueCall) : List Packet × List QueueRet :=
  calls.foldl (fifoStep qsize) ([], [])

/-- One call of the ring is one call of the bounded queue. -/
theorem queueCall_rep {m : QueueMem} {n b : Nat} {node : Nat → Nat} {xs : List Packet}
    (h : Rep m n node b xs) (c : QueueCall) :
    ∃ m' b', queueCall m c = some ((fifoCall n xs c).1, m') ∧
      Rep m' n node b' (fifoCall n xs c).2 := by
  cases c with
  | push data size =>
    have ht := pushTest_rep h size
    by_cases hs : size > xskyMtu
    · rw [if_pos hs] at ht
      exact ⟨m, b, by simp [queueCall, xskyQueuePush, ht, fifoCall, hs], by simpa [fifoCall, hs]⟩
    · rw [if_neg hs] at ht
      by_cases hfull : xs.length = n
      · rw [if_pos hfull] at ht
        exact ⟨m, b, by simp [queueCall, xskyQueuePush, ht, fifoCall, hs, hfull],
          by simpa [fifoCall, hs, hfull]⟩
      · have hlt : xs.length < n := Nat.lt_of_le_of_ne h.window.fits hfull
        obtain ⟨m', hp, hrep⟩ := xskyQueuePush_accepted h data (Nat.le_of_not_gt hs) hlt
        exact ⟨m', _, by simp [queueCall, hp, fifoCall, hs, hfull],
          by simpa [fifoCall, hs, hfull] using hrep⟩
  | pop =>
    cases xs with
    | nil =>
      have hc : m.queue.have_ = 0 := h.count
      exact ⟨m, b, by simp [queueCall, xskyQueuePop, hc, fifoCall], h⟩
    | cons x xs =>
      have hc : m.queue.have_ ≠ 0 := by rw [h.count]; simp
      obtain ⟨m', hp, hheap, hrep⟩ := popLocked_rep h
      obtain ⟨d, hd, hsize, hpkt⟩ := h.window.head
      have hnode := Heap.ne_null hd
      refine ⟨m', b + 1, ?_, hrep⟩
      simp [queueCall, xskyQueuePop, hc, hp, hnode, hheap, hd, hsize, hpkt, fifoCall]
  | reset => exact ⟨_, b, rfl, xskyQueueReset_rep h⟩

theorem queueStep_run {n : Nat} {node : Nat → Nat} :
    ∀ (calls : List QueueCall) (m : QueueMem) (b : Nat) (xs : List Packet)
      (rets : List QueueRet), Rep m n node b xs →
      ∃ m' b', run queueStep (m, rets) calls =
          some (m', (calls.foldl (fifoStep n) (xs, rets)).2) ∧
        Rep m' n node b' (calls.foldl (fifoStep n) (xs, rets)).1 := by
  intro calls
  induction calls with
  | nil => intro m b xs rets h; exact ⟨m, b, rfl, h⟩
  | cons c calls ih =>
    intro m b xs rets h
    obtain ⟨m1, b1, hc, h1⟩ := queueCall_rep h c
    obtain ⟨m', b', hrun, h'⟩ := ih m1 b1 _ (rets ++ [(fifoCall n xs c).1]) h1
    have hstep : queueStep (m, rets) c = some (m1, rets ++ [(fifoCall n xs c).1]) := by
      simp [queueStep, hc]
    exact ⟨m', b', by rw [run_cons hstep]; exact hrun, h'⟩

/-- The ring returned by `xskyQueueInit( qsize )` is a bounded queue of `qsize` packets: every
sequence of calls returns what that queue returns, `have` counts the packets stored, and a push
that is refused changes nothing. -/
theorem xskyQueue_refines_fifo (h : Heap) {qsize : Nat} (hpos : 1 ≤ qsize)
    (hlt : qsize < 2 ^ 31) (calls : List QueueCall) :
    ∃ m0 m, xskyQueueInit h qsize = some m0 ∧
      run queueStep (m0, []) calls = some (m, (fifo qsize calls).2) ∧
      m.queue.have_ = (fifo qsize calls).1.length ∧ (fifo qsize calls).1.length ≤ qsize ∧
      ∀ data size ret m', xskyQueuePush m data size = some (ret, m') → ret ≠ 0 → m' = m := by
  obtain ⟨m0, hinit, hrep⟩ := xskyQueueInit_rep h hpos hlt
  obtain ⟨m, b, hrun, hrep'⟩ := queueStep_run calls m0 0 [] [] hrep
  exact ⟨m0, m, hinit, hrun, hrep'.count, hrep'.window.fits,
    fun data size ret m' hp hne => xskyQueuePush_refused hp hne⟩

/-- Two places, three pushes and a pop. -/
theorem xskyQueue_refines_fifo_two :
    ∃ m0 m, xskyQueueInit Heap.empty 2 = some m0 ∧
      run queueStep (m0, [])
          [.push (fun _ => 7) 1, .push (fun _ => 8) 1, .push (fun _ => 9) 1, .pop] =
        some (m, [.pushed 0, .pushed 0, .pushed (-2), .popped (some (1, [7]))]) ∧
      m.queue.have_ = 1 ∧ 1 ≤ 2 ∧
      ∀ data size ret m', xskyQueuePush m data size = some (ret, m') → ret ≠ 0 → m' = m :=
  xskyQueue_refines_fifo Heap.empty (by omega) (by omega)
    [.push (fun _ => 7) 1, .push (fun _ => 8) 1, .push (fun _ => 9) 1, .pop]

end Dgram
end Xsky
