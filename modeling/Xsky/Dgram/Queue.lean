import Xsky.Kit.Mem

/-!
# Dgram.Queue

The packet ring of `route/queue.h`: a cyclic doubly linked list of `qsize` nodes, with pointers to
the node pushed first and last, and a count.

Nodes live in a `Heap`. A pointer is an address, 0 is `NULL`, and reading or writing through a
pointer to no live node faults (`none`). `MALLOC` hands out addresses in order and always succeeds;
only their distinctness matters. The bytes pushed are read from the caller's memory.

`xskyQueuePush` and `xskyQueuePop` are each split where the source takes `queue->lock`: the test
made before it, and the locked section.
-/

namespace Xsky
namespace Dgram

open Kit

abbrev Packet := List Byte

/-- `XSKY_MTU` -/
def xskyMtu : Nat := 1501

/-- `struct xsky_queue_data` -/
structure XskyQueueData where
  next : Nat
  previous : Nat
  size : Nat
  data : Vector Byte xskyMtu

/-- `struct xsky_queue`, less its lock -/
structure XskyQueue where
  begin_ : Nat
  end_ : Nat
  list : Nat
  have_ : Nat
  size : Nat
deriving DecidableEq

/-- The nodes allocated so far; the next one goes to `brk`. -/
structure Heap where
  cell : Nat → Option XskyQueueData
  brk : Nat
  brk_pos : 0 < brk
  null : cell 0 = none
  fresh : ∀ p, brk ≤ p → cell p = none

namespace Heap

/-- No node at all. -/
def empty : Heap where
  cell := fun _ => none
  brk := 1
  brk_pos := Nat.one_pos
  null := rfl
  fresh := fun _ _ => rfl

/-- Changes the node at `p`, if there is one. -/
def update (h : Heap) (p : Nat) (f : XskyQueueData → XskyQueueData) : Heap where
  cell := fun x => if x = p then (h.cell x).map f else h.cell x
  brk := h.brk
  brk_pos := h.brk_pos
  null := by simp [h.null]
  fresh := fun x hx => by simp [h.fresh x hx]

/-- A write through the pointer `p`. -/
def store (h : Heap) (p : Nat) (f : XskyQueueData → XskyQueueData) : Option Heap :=
  match h.cell p with
  | none => none
  | some _ => some (h.update p f)

/-- `MALLOC` of one node, then the `memset` that clears it. -/
def malloc (h : Heap) : Nat × Heap :=
  (h.brk,
    { cell := fun x => if x = h.brk then some ⟨0, 0, 0, Vector.replicate _ 0⟩ else h.cell x
      brk := h.brk + 1
      brk_pos := Nat.succ_pos _
      null := by rw [if_neg (Nat.ne_of_lt h.brk_pos), h.null]
      fresh := fun x hx => by rw [if_neg (by omega), h.fresh x (by omega)] })

theorem ne_null {h : Heap} {p : Nat} {d : XskyQueueData} (hc : h.cell p = some d) : p ≠ 0 := by
  rintro rfl
  rw [h.null] at hc
  cases hc

theorem store_of_cell {h : Heap} {p : Nat} {d : XskyQueueData} (hc : h.cell p = some d)
    (f : XskyQueueData → XskyQueueData) : h.store p f = some (h.update p f) := by
  simp [store, hc]

@[simp] theorem update_brk (h : Heap) (p : Nat) (f : XskyQueueData → XskyQueueData) :
    (h.update p f).brk = h.brk := rfl

theorem update_cell (h : Heap) (p x : Nat) (f : XskyQueueData → XskyQueueData) :
    (h.update p f).cell x = if x = p then (h.cell x).map f else h.cell x := rfl

theorem update_cell_same {h : Heap} {p : Nat} {d : XskyQueueData} (hc : h.cell p = some d)
    (f : XskyQueueData → XskyQueueData) : (h.update p f).cell p = some (f d) := by
  simp [update_cell, hc]

theorem update_cell_other {h : Heap} {p x : Nat} (hx : x ≠ p)
    (f : XskyQueueData → XskyQueueData) : (h.update p f).cell x = h.cell x := by
  simp [update_cell, hx]

@[simp] theorem malloc_brk (h : Heap) : h.malloc.2.brk = h.brk + 1 := rfl

theorem malloc_cell (h : Heap) (x : Nat) :
    h.malloc.2.cell x =
      if x = h.brk then some ⟨0, 0, 0, Vector.replicate _ 0⟩ else h.cell x := rfl

end Heap

/-! ## Packets in nodes -/

/-- The first `size` bytes at `data`. -/
def packetAt (data : Mem) (size : Nat) : Packet := data.bytes 0 size

@[simp] theorem packetAt_length (data : Mem) (size : Nat) :
    (packetAt data size).length = size := by
  simp [packetAt]

/-- What a reader of `size` bytes at `data` gets from the node. -/
def XskyQueueData.packet (d : XskyQueueData) : Packet := d.data.toList.take d.size

/-- `tmp->size = size; memcpy( tmp->data, data, size );` -/
def XskyQueueData.fill (data : Mem) (size : Nat) (d : XskyQueueData) : XskyQueueData :=
  { d with
    size := size
    data := Vector.ofFn fun i : Fin xskyMtu => if i.1 < size then data i.1 else d.data[i.1] }

@[simp] theorem XskyQueueData.fill_size (data : Mem) (size : Nat) (d : XskyQueueData) :
    (d.fill data size).size = size := rfl

theorem XskyQueueData.fill_packet (data : Mem) {size : Nat} (hs : size ≤ xskyMtu)
    (d : XskyQueueData) : (d.fill data size).packet = packetAt data size := by
  apply List.ext_getElem
  · simp [packet, fill, hs]
  · intro i h1 h2
    have hi : i < size := by simpa using h2
    simp [packet, fill, packetAt, hi]

/-! ## The functions of queue.h -/

/-- The queue and the memory its nodes are in. -/
structure QueueMem where
  heap : Heap
  queue : XskyQueue

/-- The locals of `xskyQueueInit` that its loop changes, `queue->list` with them. -/
structure InitLocals where
  list : Nat
  tmpPre : Nat
  tmp : Nat

/-- The loop of `xskyQueueInit`, with the iterations left. `n` is an `int`: a count that does not
fit one faults. -/
def initLoop : Nat → Nat → Heap → InitLocals → Option (Heap × InitLocals)
  | 0, _, h, l => some (h, l)
  | k + 1, n, h, l =>
    if 2 ^ 31 ≤ n + 1 then none
    else
      let tmp := h.malloc.1
      let h1 := h.malloc.2
      if n = 0 then initLoop k (n + 1) h1 ⟨tmp, tmp, tmp⟩
      else
        match h1.store l.tmpPre (fun d => { d with next := tmp }) with
        | none => none
        | some h2 =>
          match h2.store tmp (fun d => { d with previous := l.tmpPre }) with
          | none => none
          | some h3 => initLoop k (n + 1) h3 ⟨l.list, tmp, tmp⟩

def xskyQueueInit (h : Heap) (qsize : Nat) : Option QueueMem :=
  match initLoop qsize 0 h ⟨0, 0, 0⟩ with
  | none => none
  | some (h1, l) =>
    match h1.store l.list (fun d => { d with previous := l.tmp }) with
    | none => none
    | some h2 =>
      match h2.store l.tmp (fun d => { d with next := l.list }) with
      | none => none
      | some h3 => some ⟨h3, ⟨0, 0, l.list, 0, qsize⟩⟩

/-- What `xskyQueuePush` returns before it takes the lock, if it gets no further. -/
def pushTest (m : QueueMem) (size : Nat) : Option Int :=
  if size > xskyMtu then some (-1)
  else if m.queue.size = m.queue.have_ then some (-2)
  else none

/-- The node the locked section of `xskyQueuePush` writes. -/
def pushTarget (m : QueueMem) : Option Nat :=
  if m.queue.have_ = 0 then some m.queue.list
  else (m.heap.cell m.queue.end_).map (·.next)

/-- The locked section of `xskyQueuePush`. -/
def pushLocked (m : QueueMem) (data : Mem) (size : Nat) : Option QueueMem :=
  match pushTarget m with
  | none => none
  | some tmp =>
    match m.heap.store tmp (·.fill data size) with
    | none => none
    | some h =>
      some
        { heap := h
          queue :=
            { m.queue with
              begin_ := if m.queue.have_ = 0 then tmp else m.queue.begin_
              end_ := tmp
              have_ := (m.queue.have_ + 1) % 2 ^ 64 } }

def xskyQueuePush (m : QueueMem) (data : Mem) (size : Nat) : Option (Int × QueueMem) :=
  match pushTest m size with
  | some ret => some (ret, m)
  | none => (pushLocked m data size).map fun m' => (0, m')

/-- The locked section of `xskyQueuePop`; `have` is unsigned and wraps. -/
def popLocked (m : QueueMem) : Option (Nat × QueueMem) :=
  match m.heap.cell m.queue.begin_ with
  | none => none
  | some d =>
    some (m.queue.begin_,
      { m with
        queue :=
          { m.queue with
            begin_ := d.next
            have_ := (m.queue.have_ + (2 ^ 64 - 1)) % 2 ^ 64 } })

/-- The pointer returned is 0 for `NULL`. -/
def xskyQueuePop (m : QueueMem) : Option (Nat × QueueMem) :=
  if m.queue.have_ = 0 then some (0, m) else popLocked m

def xskyQueueReset (m : QueueMem) : QueueMem := { m with queue := { m.queue with have_ := 0 } }

end Dgram
end Xsky
