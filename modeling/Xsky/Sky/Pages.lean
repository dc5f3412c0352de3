import Xsky.Kit.Chain
import Xsky.Kit.Runs
import Xsky.Sky.Lookup

/-!
# Sky.Pages

The route table as `server/server.c` has it in memory: pages linked through `next`, the head of each
chain in its bucket. `vzalloc` and `vfree` are those of `Kit.Objects`, and a read or a write through
a pointer to no live page faults.

`Refines` says that a table of pages is the table of `Sky.Route`, chain by chain. Every function
does to the pages what its counterpart there does to the lists (`insertHalf_refines`,
`findRouteSky_refines`, `removeLoop_refines`), so no run of them faults and every lookup answers as
it should (`pages_refine`). `pages_released`: after any run, `sky_exit` frees every page once.
-/

namespace Xsky
namespace Sky

open Kit

/-- `struct sky_data_page` with its link -/
structure PageCell where
  next : Option Nat
  page : SkyDataPage

/-- `device_sky->routes`, and the pages allocated. -/
structure PageTable where
  pages : Objects PageCell
  heads : Nat → Option Nat

/-- The page has room for another entry. -/
def PageCell.room (c : PageCell) : Option Unit :=
  if c.page.used < skyDataPairSize then some () else none

/-- The slot of the page that holds the key. -/
def PageCell.slotOf (d : SkyData) (c : PageCell) : Option Nat :=
  let i := c.page.seek (fun s => sameKey s.first d) 0
  if i < skyDataPairSize then some i else none

def PageCell.store (e : SkyDataPair) (c : PageCell) : PageCell := { c with page := c.page.store e }

def PageCell.clear (j : Nat) (c : PageCell) : PageCell := { c with page := c.page.clear j }

namespace PageTable

/-- The table `sky_init` makes. -/
def start : PageTable := ⟨.start, fun _ => none⟩

/-- The iterations a loop along a chain may take; no chain has more pages than were allocated. -/
def fuel (m : PageTable) : Nat := m.pages.next + 1

/-- One half of `insert_route_sky`. -/
def insertHalf (m : PageTable) (e : SkyDataPair) : Option PageTable :=
  let b := bucketOf e.first
  match walk PageCell.next PageCell.room m.pages m.fuel (m.heads b) with
  | none => none
  | some (some (page, _)) =>
    (m.pages.modify page (·.store e)).map fun s => { m with pages := s }
  | some none =>
    let tmp := m.heads b
    let page := (m.pages.create ⟨none, .empty⟩).1
    let s := (m.pages.create ⟨none, .empty⟩).2
    match s.modify page (fun c => { c with next := tmp }) with
    | none => none
    | some s =>
      (s.modify page (·.store e)).map fun s =>
        ⟨s, fun x => if x = b then some page else m.heads x⟩

def insertRouteSky (m : PageTable) (pair : SkyDataPair) : Option PageTable :=
  match m.insertHalf pair with
  | none => none
  | some m => m.insertHalf ⟨pair.second, pair.first⟩

/-- A pointer to a slot is the page and the index of the slot; the inner `none` is `NULL`. -/
def findRouteSky (m : PageTable) (d : SkyData) : Option (Option (Nat × Nat)) :=
  walk PageCell.next (PageCell.slotOf d) m.pages m.fuel (m.heads (bucketOf d))

/-- A read through a pointer to a slot. -/
def pairAt (s : Objects PageCell) (pair : Nat × Nat) : Option SkyDataPair :=
  (s.get pair.1).bind (·.page.pairs[pair.2]?)

/-- One of the two page loops of `remove_route_sky`, as `Sky.removeLoop` has it. -/
def removeLoop (side : SkyDataPair → SkyData) (pair : Nat × Nat) :
    Nat → Nat → Option Nat → Objects PageCell → Option (Objects PageCell)
  | 0, _, _, _ => none
  | _ + 1, _, none, s => some s
  | n + 1, i, some page, s =>
    match s.get page with
    | none => none
    | some c =>
      if c.page.used > 0 then
        match pairAt s pair with
        | none => none
        | some key =>
          let j := c.page.seek (fun e => sameKey e.first (side key)) i
          if j < skyDataPairSize then
            match s.modify page (·.clear j) with
            | none => none
            | some s => removeLoop side pair n j c.next s
          else removeLoop side pair n j c.next s
      else removeLoop side pair n i c.next s

def removeRouteSky (m : PageTable) (d : SkyData) : Option PageTable :=
  match m.findRouteSky d with
  | none => none
  | some none => some m
  | some (some pair) =>
    match pairAt m.pages pair with
    | none => none
    | some key =>
      let first := bucketOf key.first
      let second := bucketOf key.second
      match removeLoop (·.first) pair m.fuel 0 (m.heads first) m.pages with
      | none => none
      | some s =>
        (removeLoop (·.second) pair m.fuel 0 (m.heads second) s).map fun s => { m with pages := s }

end PageTable

/-! ## The two tables -/

/-- `nodes b` are the pages of bucket `b` in order; each holds what the list of the bucket has
there, no page is in two buckets, and none ever allocated is freed or out of all of them. -/
structure Refines (m : PageTable) (r : Routes) (nodes : Nat → List Nat) : Prop where
  chain : ∀ b, Chain PageCell.next m.pages (m.heads b) (nodes b)
  pages : ∀ b k : Nat, ((nodes b)[k]?).bind (fun p => (m.pages.get p).map (·.page)) = (r b)[k]?
  apart : ∀ b c p, p ∈ nodes b → p ∈ nodes c → b = c
  owned : ∀ p, p < m.pages.next → ∃ b, b < skyDataBucketSize ∧ p ∈ nodes b

section

variable {m : PageTable} {r : Routes} {nodes : Nat → List Nat}

theorem refines_start : Refines .start .empty (fun _ => []) where
  chain _ := chain_nil
  pages b k := rfl
  apart b c p hp := by cases hp
  owned p hp := absurd hp (Nat.not_lt_zero p)

theorem Refines.cell (h : Refines m r nodes) {b k p : Nat} (hp : (nodes b)[k]? = some p) :
    ∃ c, m.pages.get p = some c ∧ c.next = (nodes b)[k + 1]? ∧ (r b)[k]? = some c.page := by
  obtain ⟨c, hc, hnext⟩ := (h.chain b).2 k p hp
  refine ⟨c, hc, hnext, ?_⟩
  rw [← h.pages, hp, Option.bind_some, hc]
  rfl

/-- A page of the list is at a node. -/
theorem Refines.node (h : Refines m r nodes) {b k : Nat} {page : SkyDataPage}
    (hk : (r b)[k]? = some page) : ∃ p c, (nodes b)[k]? = some p ∧ m.pages.get p = some c ∧
      c.next = (nodes b)[k + 1]? ∧ c.page = page := by
  rw [← h.pages] at hk
  obtain ⟨p, hp, -⟩ := Option.bind_eq_some_iff.mp hk
  obtain ⟨c, hc, hnext, hpage⟩ := h.cell hp
  rw [hp, Option.bind_some, hc] at hk
  cases hk
  exact ⟨p, c, hp, hc, hnext, rfl⟩

theorem Refines.length (h : Refines m r nodes) (b : Nat) : (nodes b).length = (r b).length := by
  apply Nat.le_antisymm
  · apply Nat.le_of_not_lt
    intro hlt
    obtain ⟨c, -, -, hpage⟩ := h.cell (b := b) (List.getElem?_eq_getElem hlt)
    rw [List.getElem?_eq_none (Nat.le_refl _)] at hpage
    cases hpage
  · apply Nat.le_of_not_lt
    intro hlt
    obtain ⟨p, -, hp, -⟩ := h.node (b := b) (List.getElem?_eq_getElem hlt)
    rw [List.getElem?_eq_none (Nat.le_refl _)] at hp
    cases hp

theorem Refines.fuel (h : Refines m r nodes) (b : Nat) : (nodes b).length < m.fuel :=
  Nat.lt_succ_of_le (h.chain b).length_le

/-- A page stands at one place only. -/
theorem Refines.place (h : Refines m r nodes) {b c j k p : Nat} (hb : (nodes b)[j]? = some p)
    (hc : (nodes c)[k]? = some p) : b = c ∧ j = k := by
  have hbc := h.apart b c p (List.mem_of_getElem? hb) (List.mem_of_getElem? hc)
  subst hbc
  refine ⟨rfl, ?_⟩
  obtain ⟨hj, -⟩ := List.getElem?_eq_some_iff.mp hb
  exact (List.getElem?_inj hj (h.chain b).nodup).mp (hb.trans hc.symm)

/-- A change of one page that leaves its link is that change of the page in its list. -/
theorem Refines.modify (h : Refines m r nodes) {b k p : Nat} (hp : (nodes b)[k]? = some p)
    {f : PageCell → PageCell} {g : SkyDataPage → SkyDataPage} (hlink : ∀ c, (f c).next = c.next)
    (hpage : ∀ c, (f c).page = g c.page) :
    ∃ s, m.pages.modify p f = some s ∧ s.next = m.pages.next ∧
      Refines { m with pages := s } (r.setChain b ((r b).modify k g)) nodes := by
  obtain ⟨s, hs, hsnext⟩ :=
    Objects.modify_of_live ((h.chain b).live (List.mem_of_getElem? hp)) f
  have hget := Objects.modify_get hs
  refine ⟨s, hs, hsnext, fun c => ?_, fun c j => ?_, h.apart,
    fun q hq => h.owned q (by rw [← hsnext]; exact hq)⟩
  · refine (h.chain c).congr fun q hq => ?_
    rw [hget]
    split
    · rw [Option.map_map]
      congr 1
      funext a
      exact hlink a
    · rfl
  · by_cases hplace : c = b ∧ j = k
    · obtain ⟨rfl, rfl⟩ := hplace
      obtain ⟨a, ha, -, hold⟩ := h.cell hp
      rw [hp, Option.bind_some, hget, if_pos rfl, ha, Routes.setChain_self,
        List.getElem?_modify_eq, hold]
      exact congrArg some (hpage a)
    · have hsame : ((nodes c)[j]?).bind (fun q => (s.get q).map (·.page)) =
          ((nodes c)[j]?).bind (fun q => (m.pages.get q).map (·.page)) := by
        cases hq : (nodes c)[j]? with
        | none => rfl
        | some q =>
          have hne : q ≠ p := fun heq => hplace (h.place hq (heq ▸ hp))
          rw [Option.bind_some, Option.bind_some, hget, if_neg hne]
      rw [hsame, h.pages]
      by_cases hc : c = b
      · subst hc
        have hj : k ≠ j := fun hj => hplace ⟨rfl, hj.symm⟩
        rw [Routes.setChain_self, List.getElem?_modify_ne _ _ hj]
      · rw [Routes.setChain_other _ _ hc]

/-! ## Inserting -/

theorem storeInChain_first {e : SkyDataPair} {ps : List SkyDataPage} {k : Nat} {p : SkyDataPage}
    (hk : ps[k]? = some p) (hroom : p.used < skyDataPairSize)
    (hbefore : ∀ j q, j < k → ps[j]? = some q → ¬ q.used < skyDataPairSize) :
    storeInChain e ps = some (ps.modify k (·.store e)) := by
  induction ps generalizing k with
  | nil => cases hk
  | cons q ps ih =>
    cases k with
    | zero =>
      cases hk
      rw [storeInChain, if_pos hroom]
      rfl
    | succ k =>
      rw [storeInChain, if_neg (hbefore 0 q (by omega) rfl),
        ih (by simpa using hk) fun j x hj hx => hbefore (j + 1) x (by omega) (by simpa using hx)]
      rfl

theorem storeInChain_full {e : SkyDataPair} {ps : List SkyDataPage}
    (h : ∀ q ∈ ps, ¬ q.used < skyDataPairSize) : storeInChain e ps = none := by
  induction ps with
  | nil => rfl
  | cons q ps ih =>
    rw [storeInChain, if_neg (h q List.mem_cons_self),
      ih fun x hx => h x (List.mem_cons_of_mem q hx)]
    rfl

theorem room_bind {s : Objects PageCell} {p : Nat} {c : PageCell} (hc : s.get p = some c) :
    (s.get p).bind PageCell.room = if c.page.used < skyDataPairSize then some () else none := by
  rw [hc]
  rfl

/-- A new page, in front of a chain. -/
theorem Refines.push (h : Refines m r nodes) {b p : Nat} {s : Objects PageCell}
    {page : SkyDataPage} (hb : b < skyDataBucketSize) (hp : p = m.pages.next)
    (hnext : s.next = p + 1)
    (hs : ∀ k, s.get k = if k = p then some ⟨m.heads b, page⟩ else m.pages.get k) :
    Refines ⟨s, fun x => if x = b then some p else m.heads x⟩ (r.setChain b (page :: r b))
      (fun x => if x = b then p :: nodes b else nodes x) := by
  have hdead : ∀ c, p ∉ nodes c := by
    intro c hmem
    exact ((h.chain c).live hmem).ne_next hp
  have hold : ∀ c, ∀ q ∈ nodes c, s.get q = m.pages.get q := by
    intro c q hq
    have hne : q ≠ p := fun heq => hdead c (heq ▸ hq)
    rw [hs, if_neg hne]
  have hchain : ∀ c, Chain PageCell.next s (m.heads c) (nodes c) := by
    intro c
    exact (h.chain c).congr fun q hq => by rw [hold c q hq]
  have hpages : ∀ c k : Nat, ((nodes c)[k]?).bind (fun q => (s.get q).map (·.page)) =
      (r c)[k]? := by
    intro c k
    rw [← h.pages]
    cases hq : (nodes c)[k]? with
    | none => rfl
    | some q => rw [Option.bind_some, Option.bind_some, hold c q (List.mem_of_getElem? hq)]
  have hmem : ∀ c q, q ∈ (if c = b then p :: nodes b else nodes c) →
      q = p ∧ c = b ∨ q ∈ nodes c := by
    intro c q hq
    split at hq
    · rename_i hcb
      obtain rfl | hq := List.mem_cons.mp hq
      · exact .inl ⟨rfl, hcb⟩
      · rw [hcb]
        exact .inr hq
    · exact .inr hq
  refine ⟨fun c => ?_, fun c k => ?_, fun c d q hqc hqd => ?_, fun q hq => ?_⟩
  · by_cases hc : c = b
    · subst hc
      simp only [if_true]
      exact chain_push (hchain c) (by rw [hs, if_pos rfl]) rfl
    · simp only [if_neg hc]
      exact hchain c
  · by_cases hc : c = b
    · subst hc
      rw [Routes.setChain_self]
      simp only [if_true]
      cases k with
      | zero => simp [hs]
      | succ k =>
        simp only [List.getElem?_cons_succ]
        exact hpages c k
    · rw [Routes.setChain_other _ _ hc]
      simp only [if_neg hc]
      exact hpages c k
  · rcases hmem c q hqc with ⟨rfl, rfl⟩ | hc
    · rcases hmem d q hqd with ⟨-, rfl⟩ | hd
      · rfl
      · exact absurd hd (hdead d)
    · rcases hmem d q hqd with ⟨rfl, rfl⟩ | hd
      · exact absurd hc (hdead c)
      · exact h.apart c d q hc hd
  · by_cases hqp : q = p
    · exact ⟨b, hb, by rw [if_pos rfl, hqp]; exact List.mem_cons_self⟩
    · have hlt : q < s.next := hq
      obtain ⟨c, hc, hqc⟩ := h.owned q (by omega)
      refine ⟨c, hc, ?_⟩
      split
      · rename_i hcb
        rw [hcb] at hqc
        exact List.mem_cons_of_mem p hqc
      · exact hqc

theorem bucketOf_lt (d : SkyData) : bucketOf d < skyDataBucketSize := Nat.mod_lt _ (by decide)

theorem insertHalf_refines (h : Refines m r nodes) (e : SkyDataPair) :
    ∃ m' nodes', m.insertHalf e = some m' ∧ Refines m' (insertHalf r e) nodes' := by
  unfold PageTable.insertHalf insertHalf
  simp only
  rcases walk_chain (f := PageCell.room) (h.chain (bucketOf e.first)) (h.fuel _) with
    ⟨k, p, b, hfirst, hwalk⟩ | ⟨hnone, hwalk⟩
  · -- there is a page with room
    obtain ⟨c, hc, -, hpage⟩ := h.cell hfirst.place
    have hroom : c.page.used < skyDataPairSize := by
      have hanswer := hfirst.answer
      rw [room_bind hc] at hanswer
      split at hanswer
      · assumption
      · cases hanswer
    have hbefore : ∀ j q, j < k → (r (bucketOf e.first))[j]? = some q →
        ¬ q.used < skyDataPairSize := by
      intro j q hj hq hlt
      obtain ⟨x, a, hx, ha, -, rfl⟩ := h.node hq
      have hnoroom := hfirst.before j x hj hx
      rw [room_bind ha, if_pos hlt] at hnoroom
      cases hnoroom
    obtain ⟨s, hs, -, hrefines⟩ := h.modify (f := (·.store e)) (g := (·.store e)) hfirst.place
      (fun _ => rfl) fun _ => rfl
    rw [storeInChain_first hpage hroom hbefore]
    simp only [hwalk, hs, Option.map_some]
    exact ⟨_, nodes, rfl, hrefines⟩
  · -- there is none, and a new one comes in front
    have hfull : ∀ q ∈ r (bucketOf e.first), ¬ q.used < skyDataPairSize := by
      intro q hq hlt
      obtain ⟨j, hj⟩ := List.getElem?_of_mem hq
      obtain ⟨x, a, hx, ha, -, rfl⟩ := h.node hj
      have hnoroom := hnone x (List.mem_of_getElem? hx)
      rw [room_bind ha, if_pos hlt] at hnoroom
      cases hnoroom
    have hnew := m.pages.create_get ⟨none, .empty⟩
    have hlive : (m.pages.create ⟨none, .empty⟩).2.Live m.pages.next := by
      unfold Objects.Live
      rw [hnew, if_pos rfl]
      rfl
    obtain ⟨s1, hs1, hnext1⟩ := Objects.modify_of_live hlive
      (fun c => { c with next := m.heads (bucketOf e.first) })
    have hget1 := Objects.modify_get hs1
    have hlive1 : s1.Live m.pages.next := by
      unfold Objects.Live
      rw [hget1, if_pos rfl, hnew, if_pos rfl]
      rfl
    obtain ⟨s2, hs2, hnext2⟩ := Objects.modify_of_live hlive1 (·.store e)
    have hget2 := Objects.modify_get hs2
    have hget : ∀ k, s2.get k = if k = m.pages.next then
        some ⟨m.heads (bucketOf e.first), SkyDataPage.empty.store e⟩ else m.pages.get k := by
      intro k
      rw [hget2, hget1, hnew]
      by_cases hk : k = m.pages.next
      · simp [hk, PageCell.store]
      · simp [hk]
    rw [storeInChain_full hfull]
    have hpage : (m.pages.create ⟨none, .empty⟩).1 = m.pages.next := rfl
    simp only [hwalk, hpage, hs1, hs2, Option.map_some]
    exact ⟨_, _, rfl, h.push (bucketOf_lt _) rfl (hnext2.trans hnext1) hget⟩

theorem insertRouteSky_refines (h : Refines m r nodes) (pair : SkyDataPair) :
    ∃ m' nodes', m.insertRouteSky pair = some m' ∧ Refines m' (insertRouteSky r pair) nodes' := by
  obtain ⟨m1, nodes1, hm1, h1⟩ := insertHalf_refines h pair
  obtain ⟨m2, nodes2, hm2, h2⟩ := insertHalf_refines h1 ⟨pair.second, pair.first⟩
  refine ⟨m2, nodes2, ?_, h2⟩
  simp only [PageTable.insertRouteSky, hm1, hm2]

/-! ## Looking up -/

theorem findInChain_at {d : SkyData} {ps : List SkyDataPage} {k n : Nat} {p : SkyDataPage}
    (hk : ps[k]? = some p) (hhas : p.keyAt d < skyDataPairSize)
    (hbefore : ∀ j q, j < k → ps[j]? = some q → ¬ q.keyAt d < skyDataPairSize) :
    findInChain d ps n = some (n + k, p.keyAt d) := by
  induction ps generalizing k n with
  | nil => cases hk
  | cons q ps ih =>
    cases k with
    | zero =>
      cases hk
      exact if_pos hhas
    | succ k =>
      have hrest := ih (n := n + 1) (by simpa using hk) fun j x hj hx =>
        hbefore (j + 1) x (by omega) (by simpa using hx)
      rw [show n + (k + 1) = n + 1 + k by omega, ← hrest]
      exact if_neg (hbefore 0 q (by omega) rfl)

theorem findInChain_missing {d : SkyData} {ps : List SkyDataPage} {n : Nat}
    (h : ∀ q ∈ ps, ¬ q.keyAt d < skyDataPairSize) : findInChain d ps n = none := by
  induction ps generalizing n with
  | nil => rfl
  | cons q ps ih =>
    have hrest := ih (n := n + 1) fun x hx => h x (List.mem_cons_of_mem q hx)
    rw [← hrest]
    exact if_neg (h q List.mem_cons_self)

theorem slotOf_bind {s : Objects PageCell} {p : Nat} {c : PageCell} (d : SkyData)
    (hc : s.get p = some c) : (s.get p).bind (PageCell.slotOf d) =
      if c.page.keyAt d < skyDataPairSize then some (c.page.keyAt d) else none := by
  rw [hc]
  rfl

/-- Both tables find the key in the same slot, or neither does. -/
theorem findRouteSky_refines (h : Refines m r nodes) (d : SkyData) :
    (∃ k p i, findRouteSky r d = some ⟨bucketOf d, k, i⟩ ∧ (nodes (bucketOf d))[k]? = some p ∧
      m.findRouteSky d = some (some (p, i))) ∨
    (findRouteSky r d = none ∧ m.findRouteSky d = some none) := by
  rcases walk_chain (f := PageCell.slotOf d) (h.chain (bucketOf d)) (h.fuel _) with
    ⟨k, p, i, hfirst, hwalk⟩ | ⟨hnone, hwalk⟩
  · obtain ⟨c, hc, -, hpage⟩ := h.cell hfirst.place
    have hanswer := hfirst.answer
    rw [slotOf_bind d hc] at hanswer
    split at hanswer
    · rename_i hhas
      cases hanswer
      refine .inl ⟨k, p, c.page.keyAt d, ?_, hfirst.place, hwalk⟩
      have hchain := findInChain_at (n := 0) hpage hhas fun j q hj hq hlt => by
        obtain ⟨x, a, hx, ha, -, rfl⟩ := h.node hq
        have hnot := hfirst.before j x hj hx
        rw [slotOf_bind d ha, if_pos hlt] at hnot
        cases hnot
      rw [findRouteSky, hchain, Option.map_some, Nat.zero_add]
    · cases hanswer
  · refine .inr ⟨?_, hwalk⟩
    rw [findRouteSky, findInChain_missing, Option.map_none]
    intro q hq hlt
    obtain ⟨j, hj⟩ := List.getElem?_of_mem hq
    obtain ⟨x, a, hx, ha, -, rfl⟩ := h.node hj
    have hnot := hnone x (List.mem_of_getElem? hx)
    rw [slotOf_bind d ha, if_pos hlt] at hnot
    cases hnot

theorem Refines.pairAt (h : Refines m r nodes) {b k p : Nat} (hp : (nodes b)[k]? = some p)
    (i : Nat) : PageTable.pairAt m.pages (p, i) = r.slot? ⟨b, k, i⟩ := by
  obtain ⟨c, hc, -, hpage⟩ := h.cell hp
  simp only [PageTable.pairAt, Routes.slot?, hc, hpage, Option.bind_some]

theorem slot?_isSome {b k i : Nat} :
    (r.slot? ⟨b, k, i⟩).isSome = true ↔ k < (r b).length ∧ i < skyDataPairSize := by
  unfold Routes.slot?
  cases hk : (r b)[k]? with
  | none =>
    have hle := List.getElem?_eq_none_iff.mp hk
    simp only [Option.bind_none, Option.isSome_none, Bool.false_eq_true, false_iff]
    omega
  | some p =>
    obtain ⟨hlt, -⟩ := List.getElem?_eq_some_iff.mp hk
    simp only [Option.bind_some, Option.isSome_iff_exists, hlt, true_and]
    constructor
    · rintro ⟨e, he⟩
      exact SkyDataPage.getElem?_lt he
    · intro hi
      exact ⟨p.pairs[i], Vector.getElem?_eq_getElem hi⟩

theorem findRouteSky_slot {d : SkyData} {s : SlotRef} (hs : findRouteSky r d = some s) :
    (r.slot? s).isSome = true := by
  obtain ⟨-, p, hp, he, -⟩ := findRouteSky_some hs
  rw [Routes.slot?, hp, Option.bind_some, he]
  rfl

/-! ## Removing -/

/-- One of the page loops, from place `k` of the chain on. -/
theorem removeLoop_refines (side : SkyDataPair → SkyData) (b n : Nat) {sb sk sp si : Nat} :
    ∀ (k i fuel : Nat) {m : PageTable} {r : Routes}, Refines m r nodes →
      (nodes sb)[sk]? = some sp → (r.slot? ⟨sb, sk, si⟩).isSome = true →
      (r b).length ≤ k + n → n < fuel →
      ∃ s, PageTable.removeLoop side (sp, si) fuel i ((nodes b)[k]?) m.pages = some s ∧
        s.next = m.pages.next ∧
        Refines { m with pages := s } (removeLoop side ⟨sb, sk, si⟩ b n k i r) nodes := by
  induction n with
  | zero =>
    intro k i fuel m r h _ _ hlen hfuel
    obtain ⟨fuel, rfl⟩ := Nat.exists_eq_add_of_lt hfuel
    rw [← h.length] at hlen
    rw [List.getElem?_eq_none (by omega)]
    exact ⟨m.pages, rfl, rfl, h⟩
  | succ n ih =>
    intro k i fuel m r h hsp hslot hlen hfuel
    obtain ⟨fuel, rfl⟩ := Nat.exists_eq_add_of_lt hfuel
    rw [show n + 1 + fuel + 1 = (n + fuel + 1) + 1 by omega]
    cases hk : (r b)[k]? with
    | none =>
      have hnode : (nodes b)[k]? = none := by
        rw [List.getElem?_eq_none_iff, h.length]
        exact List.getElem?_eq_none_iff.mp hk
      simp only [removeLoop, hk, hnode, PageTable.removeLoop]
      exact ⟨m.pages, rfl, rfl, h⟩
    | some page =>
      obtain ⟨p, c, hp, hc, hnext, rfl⟩ := h.node hk
      obtain ⟨key, hkey⟩ := Option.isSome_iff_exists.mp hslot
      have hread : PageTable.pairAt m.pages (sp, si) = some key := by rw [h.pairAt hsp, hkey]
      have hpair : r.pair ⟨sb, sk, si⟩ = key := Routes.pair_eq hkey
      simp only [removeLoop, hk, hp, PageTable.removeLoop, hc, hread, hpair, hnext]
      by_cases hu : c.page.used > 0
      · simp only [if_pos hu]
        by_cases hj : c.page.seek (fun e => sameKey e.first (side key)) i < skyDataPairSize
        · simp only [if_pos hj]
          generalize hjeq : c.page.seek (fun e => sameKey e.first (side key)) i = j
          obtain ⟨s, hs, hsnext, h'⟩ := h.modify (f := (·.clear j)) (g := (·.clear j)) hp
            (fun _ => rfl) fun _ => rfl
          have hslot' : ((r.clear ⟨b, k, j⟩).slot? ⟨sb, sk, si⟩).isSome = true := by
            rw [Routes.slot?_clear]
            split
            · rw [hkey]
              rfl
            · exact hslot
          have hlen' : (r.clear ⟨b, k, j⟩ b).length ≤ k + 1 + n := by
            simp only [Routes.clear, Routes.setChain_self, List.length_modify]
            omega
          obtain ⟨s', hs', hsnext', hrefines⟩ :=
            ih (k + 1) j (n + fuel + 1) h' hsp hslot' hlen' (by omega)
          simp only [hs]
          exact ⟨s', hs', hsnext'.trans hsnext, hrefines⟩
        · simp only [if_neg hj]
          exact ih _ _ _ h hsp hslot (by omega) (by omega)
      · simp only [if_neg hu]
        exact ih _ _ _ h hsp hslot (by omega) (by omega)

theorem removeRouteSky_refines (h : Refines m r nodes) (d : SkyData) :
    ∃ m', m.removeRouteSky d = some m' ∧ Refines m' (removeRouteSky r d) nodes := by
  unfold PageTable.removeRouteSky removeRouteSky
  rcases findRouteSky_refines h d with ⟨k, p, i, hlist, hp, hfind⟩ | ⟨hlist, hfind⟩
  · have hslot := findRouteSky_slot hlist
    obtain ⟨key, hkey⟩ := Option.isSome_iff_exists.mp hslot
    have hread : PageTable.pairAt m.pages (p, i) = some key := by rw [h.pairAt hp, hkey]
    have hpair : r.pair ⟨bucketOf d, k, i⟩ = key := Routes.pair_eq hkey
    simp only [hlist, hfind, hread, hpair]
    have hlen := h.length (bucketOf key.first)
    have hfuel := h.fuel (bucketOf key.first)
    obtain ⟨s1, hs1, hnext1, h1⟩ := removeLoop_refines (·.first) (bucketOf key.first)
      (r (bucketOf key.first)).length 0 0 m.fuel h hp hslot (by omega) (by omega)
    rw [← (h.chain (bucketOf key.first)).1] at hs1
    simp only [hs1]
    generalize removeLoop (·.first) ⟨bucketOf d, k, i⟩ (bucketOf key.first)
      (r (bucketOf key.first)).length 0 0 r = r1 at h1 ⊢
    have hslot1 : (r1.slot? ⟨bucketOf d, k, i⟩).isSome = true := by
      rw [slot?_isSome, ← h1.length]
      rw [slot?_isSome, ← h.length] at hslot
      exact hslot
    have hlen1 := h1.length (bucketOf key.second)
    have hfuel1 := h1.fuel (bucketOf key.second)
    obtain ⟨s2, hs2, -, h2⟩ := removeLoop_refines (·.second) (bucketOf key.second)
      (r1 (bucketOf key.second)).length 0 0 m.fuel h1 hp hslot1 (by omega)
      (by simp only [PageTable.fuel] at hfuel1 ⊢; omega)
    rw [← (h1.chain (bucketOf key.second)).1] at hs2
    simp only [hs2, Option.map_some]
    exact ⟨_, rfl, h2⟩
  · simp only [hlist, hfind]
    exact ⟨m, rfl, h⟩

/-! ## Runs -/

inductive TableCall where
  | insert (pair : SkyDataPair)
  | remove (key : SkyData)

def routesStep (r : Routes) : TableCall → Routes
  | .insert pair => insertRouteSky r pair
  | .remove key => removeRouteSky r key

def pagedStep (m : PageTable) : TableCall → Option PageTable
  | .insert pair => m.insertRouteSky pair
  | .remove key => m.removeRouteSky key

theorem pagedStep_refines (h : Refines m r nodes) (c : TableCall) :
    ∃ m' nodes', pagedStep m c = some m' ∧ Refines m' (routesStep r c) nodes' := by
  cases c with
  | insert pair => exact insertRouteSky_refines h pair
  | remove key =>
    obtain ⟨m', hm', h'⟩ := removeRouteSky_refines h key
    exact ⟨m', nodes, hm', h'⟩

theorem run_refines (h : Refines m r nodes) (calls : List TableCall) :
    ∃ m' nodes', run pagedStep m calls = some m' ∧
      Refines m' (calls.foldl routesStep r) nodes' := by
  induction calls generalizing m r nodes with
  | nil => exact ⟨m, nodes, rfl, h⟩
  | cons c calls ih =>
    obtain ⟨m1, nodes1, hm1, h1⟩ := pagedStep_refines h c
    obtain ⟨m2, nodes2, hm2, h2⟩ := ih h1
    exact ⟨m2, nodes2, by rw [run_cons hm1]; exact hm2, h2⟩

theorem Refines.lookup (h : Refines m r nodes) (d : SkyData) :
    ∃ ref, m.findRouteSky d = some ref ∧ ref.bind (PageTable.pairAt m.pages) = r.lookup d := by
  rcases findRouteSky_refines h d with ⟨k, p, i, hlist, hp, hfind⟩ | ⟨hlist, hfind⟩
  · refine ⟨_, hfind, ?_⟩
    obtain ⟨e, he⟩ := Option.isSome_iff_exists.mp (findRouteSky_slot hlist)
    rw [Option.bind_some, h.pairAt hp, Routes.lookup, hlist, Option.map_some, he,
      Routes.pair_eq he]
  · refine ⟨_, hfind, ?_⟩
    rw [Routes.lookup, hlist]
    rfl

/-- After any calls, none of which faults, the pages in memory are the table of lists chain by
chain, and a lookup reads through its pointer what it finds there. -/
theorem pages_refine (calls : List TableCall) :
    ∃ m nodes, run pagedStep .start calls = some m ∧
      Refines m (calls.foldl routesStep .empty) nodes ∧
      ∀ d, ∃ ref, m.findRouteSky d = some ref ∧
        ref.bind (PageTable.pairAt m.pages) = Routes.lookup (calls.foldl routesStep .empty) d := by
  obtain ⟨m, nodes, hm, h⟩ := run_refines refines_start calls
  exact ⟨m, nodes, hm, h, h.lookup⟩

/-! ## The end of the module -/

/-- The loop of `sky_exit`, with the buckets left. The pages freed stand behind the table. -/
def PageTable.exitLoop : Nat → Nat → PageTable → Option (PageTable × List Nat)
  | 0, _, m => some (m, [])
  | n + 1, i, m =>
    match freeAll PageCell.next m.fuel (m.heads i) m.pages with
    | none => none
    | some (s, freed) =>
      (exitLoop n (i + 1) ⟨s, fun x => if x = i then none else m.heads x⟩).map
        fun (m, rest) => (m, freed ++ rest)

/-- `sky_exit`, as far as the table goes. -/
def PageTable.skyExit (m : PageTable) : Option (PageTable × List Nat) :=
  exitLoop skyDataBucketSize 0 m

theorem exitLoop_frees (hapart : ∀ b c p, p ∈ nodes b → p ∈ nodes c → b = c) (n i : Nat) :
    ∀ {m : PageTable}, (∀ b, i ≤ b → Chain PageCell.next m.pages (m.heads b) (nodes b)) →
      ∃ m', PageTable.exitLoop n i m = some (m', (List.range' i n).flatMap nodes) ∧
        ∀ p, m'.pages.get p =
          if p ∈ (List.range' i n).flatMap nodes then none else m.pages.get p := by
  induction n generalizing i with
  | zero =>
    intro m _
    exact ⟨m, rfl, fun p => rfl⟩
  | succ n ih =>
    intro m h
    have hi := h i (Nat.le_refl i)
    obtain ⟨s, hs, -, hget⟩ := freeAll_chain (n := m.fuel) hi (Nat.lt_succ_of_le hi.length_le)
    have hrest : ∀ b, i + 1 ≤ b → Chain PageCell.next s
        (if b = i then none else m.heads b) (nodes b) := by
      intro b hb
      have hne : b ≠ i := by omega
      rw [if_neg hne]
      refine (h b (by omega)).congr fun p hp => ?_
      rw [hget, if_neg fun hpi => hne (hapart b i p hp hpi)]
    obtain ⟨m', hm', hget'⟩ := ih (i + 1)
      (m := ⟨s, fun x => if x = i then none else m.heads x⟩) hrest
    refine ⟨m', ?_, fun p => ?_⟩
    · simp only [PageTable.exitLoop, hs, hm', Option.map_some, List.range'_succ,
        List.flatMap_cons]
    · rw [hget', List.range'_succ, List.flatMap_cons]
      simp only [hget, List.mem_append]
      by_cases hp : p ∈ nodes i
      · simp [hp]
      · simp only [hp, if_false, false_or]

/-- A bucket is empty when its turn is over, and later turns leave it so. -/
theorem exitLoop_heads {n i : Nat} {m m' : PageTable} {freed : List Nat}
    (h : PageTable.exitLoop n i m = some (m', freed)) (b : Nat) :
    m'.heads b = if i ≤ b ∧ b < i + n then none else m.heads b := by
  induction n generalizing i m freed with
  | zero =>
    obtain ⟨rfl, -⟩ := Prod.mk.inj (Option.some.inj h)
    rw [if_neg (by omega)]
  | succ n ih =>
    unfold PageTable.exitLoop at h
    split at h
    · cases h
    · obtain ⟨⟨m'', rest⟩, hrest, heq⟩ := Option.map_eq_some_iff.mp h
      obtain ⟨rfl, -⟩ := Prod.mk.inj heq
      rw [ih hrest]
      by_cases hb : b = i
      · simp only [if_pos hb]
        rw [if_neg (by omega), if_pos (by omega)]
      · simp only [if_neg hb]
        exact if_congr (by omega) rfl rfl

/-- After any calls, `sky_exit` comes to its end without following a link of a page already freed,
frees every page ever allocated, each once, and leaves none and every bucket empty. -/
theorem pages_released (calls : List TableCall) :
    ∃ m m' freed, run pagedStep .start calls = some m ∧ m.skyExit = some (m', freed) ∧
      freed.Perm (List.range m.pages.next) ∧ (∀ p, ¬ m'.pages.Live p) ∧
      ∀ b < skyDataBucketSize, m'.heads b = none := by
  obtain ⟨m, nodes, hm, h⟩ := run_refines refines_start calls
  obtain ⟨m', hm', hget⟩ := exitLoop_frees h.apart skyDataBucketSize 0 fun b _ => h.chain b
  have hmem : ∀ p, p ∈ (List.range' 0 skyDataBucketSize).flatMap nodes ↔ p < m.pages.next := by
    intro p
    rw [List.mem_flatMap]
    constructor
    · rintro ⟨b, -, hp⟩
      apply Nat.lt_of_not_le
      intro hle
      have hlive := (h.chain b).live hp
      unfold Objects.Live at hlive
      rw [m.pages.fresh p hle] at hlive
      cases hlive
    · intro hlt
      obtain ⟨b, hb, hp⟩ := h.owned p hlt
      exact ⟨b, List.mem_range'_1.mpr ⟨Nat.zero_le b, by omega⟩, hp⟩
  have hnodup : ((List.range' 0 skyDataBucketSize).flatMap nodes).Nodup := by
    rw [List.nodup_flatMap]
    refine ⟨fun b _ => (h.chain b).nodup, ?_⟩
    refine List.Pairwise.imp (fun {b c} hbc p hb hc => ?_) List.nodup_range'
    exact hbc (h.apart b c p hb hc)
  refine ⟨m, m', _, hm, hm', ?_, fun p hlive => ?_, fun b hb => ?_⟩
  · rw [List.perm_ext_iff_of_nodup hnodup List.nodup_range]
    intro p
    rw [hmem, List.mem_range]
  · unfold Objects.Live at hlive
    rw [hget] at hlive
    split at hlive
    · cases hlive
    · rename_i hp
      rw [hmem] at hp
      rw [m.pages.fresh p (Nat.le_of_not_lt hp)] at hlive
      cases hlive
  · rw [exitLoop_heads hm', if_pos (by omega)]

end

end Sky
end Xsky
