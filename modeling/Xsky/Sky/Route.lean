import Xsky.Kit.Mem
import Xsky.Kit.Seek

/-!
# Sky.Route

The route table of `server/server.c`: a hash table of 1000 buckets, each a chain of pages of 100
slots. A slot holds a pair of endpoints, is found by the first of the two, and is free when the
code of that one is 0.

A chain is the list of its pages, the one `bucket->pages` points to first. A pointer to a slot is a
`SlotRef`; pages are never freed or reordered while one is in use. `vzalloc` always succeeds.
-/

namespace Xsky
namespace Sky

open Kit

/-- `SKY_DATA_PAIR_SIZE` -/
def skyDataPairSize : Nat := 100

/-- `SKY_DATA_BUCKET_SIZE` -/
def skyDataBucketSize : Nat := 1000

/-- `sky_data`: the fields of `v4`, and the 12 bytes of the union after them. -/
structure SkyData where
  code : Byte
  size : Byte
  port : BitVec 16
  addr : BitVec 32
  rest : BitVec 96
deriving DecidableEq

/-- `struct sky_data_pair` -/
structure SkyDataPair where
  first : SkyData
  second : SkyData
deriving DecidableEq

/-- A pair cleared by `memset` or `vzalloc`. -/
def SkyDataPair.zero : SkyDataPair := ⟨⟨0, 0, 0, 0, 0⟩, ⟨0, 0, 0, 0, 0⟩⟩

/-- `struct sky_data_page`, less its link -/
structure SkyDataPage where
  used : Nat
  pairs : Vector SkyDataPair skyDataPairSize

/-- `device_sky->routes`: the chain of each bucket. -/
abbrev Routes := Nat → List SkyDataPage

def Routes.empty : Routes := fun _ => []

def Routes.setChain (r : Routes) (b : Nat) (ps : List SkyDataPage) : Routes :=
  fun x => if x = b then ps else r x

structure SlotRef where
  bucket : Nat
  page : Nat
  slot : Nat
deriving DecidableEq

/-! ## Hashing -/

/-- The bytes of the union in memory. -/
def SkyData.bytes (d : SkyData) : List Byte :=
  [d.code, d.size] ++ (List.range 2).map (Mem.byteOf d.port) ++
    (List.range 4).map (Mem.byteOf d.addr) ++ (List.range 12).map (Mem.byteOf d.rest)

def hashRouteSky (d : SkyData) : BitVec 32 :=
  d.bytes.foldl (fun v b => (v ^^^ b.setWidth 32) * 16777619#32) 2166136261#32

def bucketOf (d : SkyData) : Nat := (hashRouteSky d).toNat % skyDataBucketSize

/-! ## Pages -/

/-- The comparison of `find_route_sky` and `remove_route_sky`. -/
def sameKey (x d : SkyData) : Bool :=
  x.code = d.code && x.size = d.size && x.addr = d.addr && x.port = d.port

theorem sameKey_iff {x d : SkyData} : sameKey x d = true ↔
    x.code = d.code ∧ x.size = d.size ∧ x.addr = d.addr ∧ x.port = d.port := by
  simp [sameKey, and_assoc]

theorem sameKey_congr {x y d : SkyData} (h : sameKey y d = true) : sameKey x y = sameKey x d := by
  obtain ⟨hc, hs, ha, hp⟩ := sameKey_iff.mp h
  simp only [sameKey, hc, hs, ha, hp]

theorem sameKey_comm (x y : SkyData) : sameKey x y = sameKey y x := by
  simp only [sameKey, eq_comm]

theorem sameKey_cancel {x y d : SkyData} (h : sameKey x y = true) (hd : sameKey x d = true) :
    sameKey y d = true := by
  rw [sameKey_comm, ← sameKey_congr h, sameKey_comm]
  exact hd

theorem sameKey_code {x d : SkyData} (h : sameKey x d = true) (hd : d.code ≠ 0) : x.code ≠ 0 := by
  rw [(sameKey_iff.mp h).1]
  exact hd

namespace SkyDataPage

def empty : SkyDataPage := ⟨0, Vector.replicate _ .zero⟩

/-- The loop `for ( ; i < SKY_DATA_PAIR_SIZE; ++i )` that breaks at a slot with the property. -/
def seek (p : SkyDataPage) (q : SkyDataPair → Bool) (i : Nat) : Nat :=
  Kit.seek (fun j => (p.pairs[j]?).any q) (skyDataPairSize - i) i

/-- Stores in the first free slot, if there is one. -/
def store (p : SkyDataPage) (e : SkyDataPair) : SkyDataPage :=
  let i := p.seek (fun s => s.first.code = 0) 0
  if i < skyDataPairSize then ⟨p.used + 1, p.pairs.setIfInBounds i e⟩ else p

def clear (p : SkyDataPage) (i : Nat) : SkyDataPage :=
  ⟨p.used - 1, p.pairs.setIfInBounds i .zero⟩

end SkyDataPage

/-! ## The operations -/

/-- Stores in the first page of the chain with `used` below the size; `none` if there is no such
page. -/
def storeInChain (e : SkyDataPair) : List SkyDataPage → Option (List SkyDataPage)
  | [] => none
  | p :: ps =>
    if p.used < skyDataPairSize then some (p.store e :: ps)
    else (storeInChain e ps).map (p :: ·)

/-- One half of `insertRouteSky`: a new page goes to the front of the chain. -/
def insertHalf (r : Routes) (e : SkyDataPair) : Routes :=
  let b := bucketOf e.first
  match storeInChain e (r b) with
  | some ps => r.setChain b ps
  | none => r.setChain b (SkyDataPage.empty.store e :: r b)

def insertRouteSky (r : Routes) (pair : SkyDataPair) : Routes :=
  insertHalf (insertHalf r pair) ⟨pair.second, pair.first⟩

/-- The page, counted from `k`, and the slot of the first match. -/
def findInChain (d : SkyData) : List SkyDataPage → Nat → Option (Nat × Nat)
  | [], _ => none
  | p :: ps, k =>
    let i := p.seek (fun s => sameKey s.first d) 0
    if i < skyDataPairSize then some (k, i) else findInChain d ps (k + 1)

def findRouteSky (r : Routes) (d : SkyData) : Option SlotRef :=
  (findInChain d (r (bucketOf d)) 0).map fun (k, i) => ⟨bucketOf d, k, i⟩

/-- The slot a pointer refers to. -/
def Routes.slot? (r : Routes) (s : SlotRef) : Option SkyDataPair :=
  ((r s.bucket)[s.page]?).bind (·.pairs[s.slot]?)

/-- What is read through the pointer. -/
def Routes.pair (r : Routes) (s : SlotRef) : SkyDataPair := (r.slot? s).getD .zero

/-- Clears a slot and counts it out of its page. -/
def Routes.clear (r : Routes) (s : SlotRef) : Routes :=
  r.setChain s.bucket ((r s.bucket).modify s.page (·.clear s.slot))

/-- One of the two page loops of `removeRouteSky`, with the pages left: at page `k` of bucket `b`
and slot index `i`, which is not reset from page to page. The key is read through `pair` at each
page, also when the slot it points to has been cleared. -/
def removeLoop (side : SkyDataPair → SkyData) (pair : SlotRef) (b : Nat) :
    Nat → Nat → Nat → Routes → Routes
  | 0, _, _, r => r
  | n + 1, k, i, r =>
    match (r b)[k]? with
    | none => r
    | some page =>
      if page.used > 0 then
        let j := page.seek (fun s => sameKey s.first (side (r.pair pair))) i
        if j < skyDataPairSize then removeLoop side pair b n (k + 1) j (r.clear ⟨b, k, j⟩)
        else removeLoop side pair b n (k + 1) j r
      else removeLoop side pair b n (k + 1) i r

def removeRouteSky (r : Routes) (d : SkyData) : Routes :=
  match findRouteSky r d with
  | none => r
  | some s =>
    let first := bucketOf (r.pair s).first
    let second := bucketOf (r.pair s).second
    let r1 := removeLoop (·.first) s first (r first).length 0 0 r
    removeLoop (·.second) s second (r1 second).length 0 0 r1

end Sky
end Xsky
