import Xsky.Sky.Lookup
import Xsky.Sky.Occupancy

/-!
# Sky.Inserts

Tables that inserts alone have made.

* `inserts_keep_all` — such a table holds what was inserted, each pair both ways round and as often
  as it was inserted, and nothing else; an insert leaves the entries that are there where they are,
  and adds a page to a chain only when the pages of it are full.
* `never_removes_pair` — no removal takes both halves of a pair out of such a table: when it clears
  the entry it has found, it reads the key of the other half in the slot it has cleared.

New pages go to the front of a chain, so a slot keeps its place counted from the end.
-/

namespace Xsky
namespace Sky

open Kit

/-- A pair to insert: both halves have a code. -/
structure Coded where
  pair : SkyDataPair
  first_code : pair.first.code ≠ 0
  second_code : pair.second.code ≠ 0

/-- The table after a sequence of inserts. -/
def inserted (ps : List Coded) : Routes := ps.foldl (fun r p => insertRouteSky r p.pair) .empty

/-- The entries a pair is stored as. -/
def Coded.entries (p : Coded) : List SkyDataPair := [p.pair, p.pair.swap]

theorem foldl_sound (ps : List Coded) {r : Routes} (hr : r.Sound) :
    (ps.foldl (fun r p => insertRouteSky r p.pair) r).Sound := by
  induction ps generalizing r with
  | nil => exact hr
  | cons p ps ih => exact ih (insertRouteSky_sound hr p.first_code p.second_code)

theorem inserted_sound (ps : List Coded) : (inserted ps).Sound := foldl_sound ps Routes.empty_all

/-! ## Entries -/

def isEntry (e : SkyDataPair) : Bool := e.first.code ≠ 0

theorem isEntry_iff {e : SkyDataPair} : isEntry e = true ↔ e.first.code ≠ 0 := by
  simp [isEntry]

namespace SkyDataPage

def entries (p : SkyDataPage) : List SkyDataPair := p.pairs.toList.filter isEntry

def Full (p : SkyDataPage) : Prop := ∀ e ∈ p.pairs, e.first.code ≠ 0

theorem mem_entries {p : SkyDataPage} {e : SkyDataPair} :
    e ∈ p.entries ↔ e ∈ p.pairs ∧ e.first.code ≠ 0 := by
  rw [entries, List.mem_filter, Vector.mem_toList_iff, isEntry_iff]

theorem entries_empty : empty.entries = [] := by
  rw [List.eq_nil_iff_forall_not_mem]
  intro e he
  obtain ⟨hmem, hc⟩ := mem_entries.mp he
  rw [mem_empty hmem] at hc
  exact hc rfl

end SkyDataPage

/-- Storing over a place that is filtered out adds what is stored. -/
theorem filter_set_perm {α : Type _} {q : α → Bool} {xs : List α} {j : Nat} {old x : α}
    (hj : xs[j]? = some old) (hold : q old = false) (hx : q x = true) :
    ((xs.set j x).filter q).Perm (x :: xs.filter q) := by
  obtain ⟨hlt, rfl⟩ := List.getElem?_eq_some_iff.mp hj
  have hxs : xs = xs.take j ++ xs[j] :: xs.drop (j + 1) := by
    rw [← List.drop_eq_getElem_cons hlt, List.take_append_drop]
  have hfilter : xs.filter q = (xs.take j).filter q ++ (xs.drop (j + 1)).filter q := by
    rw [congrArg (List.filter q) hxs, List.filter_append, List.filter_cons_of_neg (by simp [hold])]
  rw [List.set_eq_take_append_cons_drop, if_pos hlt, List.filter_append,
    List.filter_cons_of_pos hx, hfilter]
  exact List.perm_middle

namespace SkyDataPage

theorem store_entries {p : SkyDataPage} {e : SkyDataPair}
    (hfree : ∃ x ∈ p.pairs, x.first.code = 0) (he : e.first.code ≠ 0) :
    (p.store e).entries.Perm (e :: p.entries) := by
  have hseek := seek_free hfree
  obtain ⟨_, old, hold, hc⟩ := seek_found hseek
  have hset : (p.store e).pairs.toList =
      p.pairs.toList.set (p.seek (fun s => s.first.code = 0) 0) e := by
    simp only [store, if_pos hseek, Vector.toList_setIfInBounds]
  rw [entries, hset]
  have hold' : p.pairs.toList[p.seek (fun s => s.first.code = 0) 0]? = some old := by
    rw [Vector.getElem?_toList]
    exact hold
  refine filter_set_perm hold' ?_ (isEntry_iff.mpr he)
  rw [Bool.eq_false_iff]
  intro hentry
  exact isEntry_iff.mp hentry (of_decide_eq_true hc)

/-- Storing leaves the entries of a page where they are. -/
theorem store_keeps {p : SkyDataPage} {e x : SkyDataPair} {j : Nat} (hj : p.pairs[j]? = some x)
    (hx : x.first.code ≠ 0) : (p.store e).pairs[j]? = some x := by
  rw [getElem?_store]
  split
  · rename_i h
    obtain ⟨rfl, hlt⟩ := h
    obtain ⟨_, old, hold, hc⟩ := seek_found hlt
    rw [hold] at hj
    cases hj
    exact absurd (of_decide_eq_true hc) hx
  · exact hj

theorem Sound.full {b : Nat} {p : SkyDataPage} (h : Sound b p) (hu : ¬ p.used < skyDataPairSize) :
    p.Full := by
  have hle : p.occupied ≤ skyDataPairSize := Vector.countP_le_size
  have hall : p.occupied = skyDataPairSize := by
    have := h.exact_used
    omega
  rw [occupied, Vector.countP_eq_size] at hall
  intro e he
  exact of_decide_eq_true (hall e he)

end SkyDataPage

/-! ## One chain -/

section Chain

variable {e : SkyDataPair} {ps qs : List SkyDataPage}

theorem storeInChain_entries (hps : ∀ p ∈ ps, p.Sound (bucketOf e.first))
    (he : e.first.code ≠ 0) (h : storeInChain e ps = some qs) :
    (qs.flatMap (·.entries)).Perm (e :: ps.flatMap (·.entries)) := by
  induction ps generalizing qs with
  | nil => cases h
  | cons p ps ih =>
    have hp := hps p List.mem_cons_self
    simp only [storeInChain] at h
    split at h
    · rename_i hu
      cases h
      have hfree := SkyDataPage.exists_free (hp.exact_used ▸ hu)
      rw [List.flatMap_cons, List.flatMap_cons, ← List.cons_append]
      exact (SkyDataPage.store_entries hfree he).append_right _
    · obtain ⟨qs', hqs, rfl⟩ := Option.map_eq_some_iff.mp h
      have hrest := ih (fun x hx => hps x (List.mem_cons_of_mem _ hx)) hqs
      rw [List.flatMap_cons, List.flatMap_cons]
      exact (hrest.append_left p.entries).trans List.perm_middle

/-- The pages stay, each in its place, and so do the entries in them. -/
theorem storeInChain_keeps (h : storeInChain e ps = some qs) :
    qs.length = ps.length ∧
      ∀ (k j : Nat) p x, ps[k]? = some p → p.pairs[j]? = some x → x.first.code ≠ 0 →
        ∃ q, qs[k]? = some q ∧ q.pairs[j]? = some x := by
  induction ps generalizing qs with
  | nil => cases h
  | cons p ps ih =>
    simp only [storeInChain] at h
    split at h
    · cases h
      refine ⟨rfl, fun k j p' x hp hx hc => ?_⟩
      cases k with
      | zero =>
        cases hp
        exact ⟨p.store e, rfl, SkyDataPage.store_keeps hx hc⟩
      | succ k => exact ⟨p', hp, hx⟩
    · obtain ⟨qs', hqs, rfl⟩ := Option.map_eq_some_iff.mp h
      obtain ⟨hlen, hrest⟩ := ih hqs
      refine ⟨by rw [List.length_cons, List.length_cons, hlen], fun k j p' x hp hx hc => ?_⟩
      cases k with
      | zero =>
        cases hp
        exact ⟨p, rfl, hx⟩
      | succ k => exact hrest k j p' x hp hx hc

theorem storeInChain_none (hps : ∀ p ∈ ps, p.Sound (bucketOf e.first))
    (h : storeInChain e ps = none) : ∀ p ∈ ps, p.Full := by
  induction ps with
  | nil =>
    intro p hp
    cases hp
  | cons p ps ih =>
    simp only [storeInChain] at h
    split at h
    · cases h
    · rename_i hu
      have hrest := ih (fun x hx => hps x (List.mem_cons_of_mem _ hx))
        (Option.map_eq_none_iff.mp h)
      intro x hx
      obtain rfl | hx := List.mem_cons.mp hx
      · exact (hps x List.mem_cons_self).full hu
      · exact hrest x hx

end Chain

/-! ## One half of an insert -/

/-- The entries of a bucket. -/
def Routes.entries (r : Routes) (b : Nat) : List SkyDataPair := (r b).flatMap (·.entries)

/-- `new` pages more in front of the chain of `b`, and its entries where they were. -/
structure Routes.Keeps (r r' : Routes) (b new : Nat) : Prop where
  length : (r' b).length = (r b).length + new
  slots : ∀ k j x, r.slot? ⟨b, k, j⟩ = some x → x.first.code ≠ 0 →
    r'.slot? ⟨b, k + new, j⟩ = some x

theorem Routes.Keeps.refl (r : Routes) (b : Nat) : r.Keeps r b 0 := ⟨rfl, fun _ _ _ h _ => h⟩

theorem Routes.Keeps.trans {r r' r'' : Routes} {b m n : Nat} (h : r.Keeps r' b m)
    (h' : r'.Keeps r'' b n) : r.Keeps r'' b (m + n) := by
  refine ⟨by rw [h'.length, h.length, Nat.add_assoc], fun k j x hx hc => ?_⟩
  have := h'.slots _ j x (h.slots k j x hx hc) hc
  rwa [Nat.add_assoc] at this

section Half

variable {r : Routes} {e : SkyDataPair}

theorem insertHalf_entries (hr : r.Sound) (he : e.first.code ≠ 0) (b : Nat) :
    ((insertHalf r e).entries b).Perm
      (if b = bucketOf e.first then e :: r.entries b else r.entries b) := by
  by_cases hb : b = bucketOf e.first
  · subst hb
    rw [if_pos rfl, Routes.entries, insertHalf_chain]
    cases hps : storeInChain e (r (bucketOf e.first)) with
    | some qs => exact storeInChain_entries (hr _) he hps
    | none =>
      have hnew : (SkyDataPage.empty.store e).entries.Perm [e] := by
        rw [← SkyDataPage.entries_empty]
        refine SkyDataPage.store_entries (SkyDataPage.exists_free ?_) he
        rw [SkyDataPage.occupied_empty]
        decide
      rw [Option.getD_none, List.flatMap_cons]
      exact hnew.append_right _
  · rw [if_neg hb, Routes.entries, insertHalf_chain_other hb]
    exact List.Perm.refl _

/-- At most one page more, and one only when the pages of the chain are full. -/
theorem insertHalf_keeps (hr : r.Sound) (b : Nat) :
    ∃ new, r.Keeps (insertHalf r e) b new ∧ (0 < new → ∀ p ∈ r b, p.Full) := by
  by_cases hb : b = bucketOf e.first
  · subst hb
    have hslot : ∀ k j x, r.slot? ⟨bucketOf e.first, k, j⟩ = some x →
        ∃ p, (r (bucketOf e.first))[k]? = some p ∧ p.pairs[j]? = some x :=
      fun k j x hx => Routes.slot?_some.mp hx
    cases hps : storeInChain e (r (bucketOf e.first)) with
    | some qs =>
      obtain ⟨hlen, hkeeps⟩ := storeInChain_keeps hps
      have hchain : insertHalf r e (bucketOf e.first) = qs := by
        rw [insertHalf_chain, hps, Option.getD_some]
      refine ⟨0, ⟨by rw [hchain, hlen, Nat.add_zero], fun k j x hx hc => ?_⟩, fun h => ?_⟩
      · obtain ⟨p, hp, hj⟩ := hslot k j x hx
        rw [Routes.slot?_some, Nat.add_zero, hchain]
        exact hkeeps k j p x hp hj hc
      · exact absurd h (Nat.lt_irrefl 0)
    | none =>
      have hchain : insertHalf r e (bucketOf e.first) =
          SkyDataPage.empty.store e :: r (bucketOf e.first) := by
        rw [insertHalf_chain, hps, Option.getD_none]
      refine ⟨1, ⟨by rw [hchain, List.length_cons], fun k j x hx _ => ?_⟩, fun _ => ?_⟩
      · obtain ⟨p, hp, hj⟩ := hslot k j x hx
        rw [Routes.slot?_some, hchain]
        exact ⟨p, hp, hj⟩
      · exact storeInChain_none (hr _) hps
  · refine ⟨0, ⟨by rw [insertHalf_chain_other hb, Nat.add_zero], fun k j x hx _ => ?_⟩, fun h => ?_⟩
    · rw [Routes.slot?_some, Nat.add_zero, insertHalf_chain_other hb]
      exact Routes.slot?_some.mp hx
    · exact absurd h (Nat.lt_irrefl 0)

theorem insertHalf_pages (hr : r.Sound) {b : Nat}
    (hmore : (r b).length < (insertHalf r e b).length) : ∀ p ∈ r b, p.Full := by
  obtain ⟨new, hkeeps, hfull⟩ := insertHalf_keeps (e := e) hr b
  apply hfull
  have := hkeeps.length
  omega

/-- An entry with a key of its own is what a lookup of it finds. -/
theorem lookup_insertHalf_self (hr : r.Sound) (he : e.first.code ≠ 0)
    (hfresh : r.lookup e.first = none) : (insertHalf r e).lookup e.first = some e := by
  have hsame : sameKey e.first e.first = true := by simp [sameKey_iff]
  have hlookup := lookup_insertHalf_same (r := r) he hsame rfl
  split at hlookup
  · exact hlookup
  · -- the entry is in the bucket, so that something is found
    rw [hfresh] at hlookup
    have hmem : e ∈ (insertHalf r e).entries (bucketOf e.first) := by
      rw [(insertHalf_entries hr he _).mem_iff, if_pos rfl]
      exact List.mem_cons_self
    obtain ⟨p, hp, hep⟩ := List.mem_flatMap.mp hmem
    rw [lookup_none_iff.mp hlookup p hp e (SkyDataPage.mem_entries.mp hep).1] at hsame
    cases hsame

end Half

/-! ## Whole inserts -/

section Insert

variable {r : Routes}

theorem insertRouteSky_entries_perm (hr : r.Sound) (p : Coded) (b : Nat) :
    ((insertRouteSky r p.pair).entries b).Perm
      (r.entries b ++ p.entries.filter fun e => bucketOf e.first = b) := by
  have hhalf := insertHalf_sound hr p.first_code p.second_code
  have h1 := insertHalf_entries hr p.first_code b
  have h2 := insertHalf_entries hhalf (e := p.pair.swap) p.second_code b
  have hstep : ∀ (e : SkyDataPair) (xs ys : List SkyDataPair),
      xs.Perm (if b = bucketOf e.first then e :: ys else ys) →
      xs.Perm ([e].filter (fun e => bucketOf e.first = b) ++ ys) := by
    intro e xs ys h
    by_cases hb : b = bucketOf e.first
    · rw [if_pos hb] at h
      rwa [List.filter_cons_of_pos (by simpa using hb.symm), List.filter_nil]
    · rw [if_neg hb] at h
      rwa [List.filter_cons_of_neg (by simpa using Ne.symm hb), List.filter_nil, List.nil_append]
  have hsplit : p.entries.filter (fun e => bucketOf e.first = b) =
      [p.pair].filter (fun e => bucketOf e.first = b) ++
        [p.pair.swap].filter (fun e => bucketOf e.first = b) := by
    rw [← List.filter_append]
    rfl
  rw [hsplit]
  refine (hstep _ _ _ h2).trans (((hstep _ _ _ h1).append_left _).trans ?_)
  rw [← List.append_assoc]
  exact List.perm_append_comm.trans (List.perm_append_comm.append_left _)

theorem foldl_entries (ps : List Coded) (hr : r.Sound) (b : Nat) :
    ((ps.foldl (fun r p => insertRouteSky r p.pair) r).entries b).Perm
      (r.entries b ++ (ps.flatMap Coded.entries).filter fun e => bucketOf e.first = b) := by
  induction ps generalizing r with
  | nil => simp
  | cons p ps ih =>
    have hstep := insertRouteSky_entries_perm hr p b
    have hrest := ih (insertRouteSky_sound hr p.first_code p.second_code)
    rw [List.flatMap_cons, List.filter_append, ← List.append_assoc]
    exact hrest.trans (hstep.append_right _)

/-- No entry of the table has the key. -/
def Unstored (r : Routes) (d : SkyData) : Prop :=
  ∀ s e, r.slot? s = some e → e.first.code ≠ 0 → sameKey e.first d = false

theorem lookup_unstored {d : SkyData} (hd : d.code ≠ 0) (h : Unstored r d) :
    r.lookup d = none := by
  rw [lookup_none_iff]
  intro p hp e he
  by_cases hc : e.first.code = 0
  · rw [Bool.eq_false_iff]
    exact fun hm => hd ((sameKey_iff.mp hm).1.symm.trans hc)
  · obtain ⟨k, hk⟩ := List.getElem?_of_mem hp
    obtain ⟨j, hj⟩ := Vector.mem_iff_getElem?.mp he
    exact h ⟨bucketOf d, k, j⟩ e (Routes.slot?_some.mpr ⟨p, hk, hj⟩) hc

/-- A lookup finds the pair, in the slot returned. -/
def Finds (r : Routes) (d : SkyData) (e : SkyDataPair) : Prop :=
  ∃ s, findRouteSky r d = some s ∧ r.slot? s = some e

theorem finds_of_lookup {d : SkyData} {e : SkyDataPair} (h : r.lookup d = some e) :
    Finds r d e := by
  obtain ⟨s, hs, rfl⟩ := Option.map_eq_some_iff.mp h
  obtain ⟨_, p, hp, he, _⟩ := findRouteSky_some hs
  exact ⟨s, hs, Routes.slot?_some.mpr ⟨p, hp, he⟩⟩

/-- What an insert does to a table: entries stay, a page comes when the others are full, and a pair
with keys of its own is found by both. -/
structure InsertKeeps (r : Routes) (p : Coded) : Prop where
  kept : ∀ b, ∃ new, r.Keeps (insertRouteSky r p.pair) b new
  first_page : ∀ b, (r b).length < (insertHalf r p.pair b).length → ∀ q ∈ r b, q.Full
  second_page : ∀ b, (insertHalf r p.pair b).length < (insertRouteSky r p.pair b).length →
    ∀ q ∈ insertHalf r p.pair b, q.Full
  found : sameKey p.pair.first p.pair.second = false → Unstored r p.pair.first →
    Unstored r p.pair.second →
    Finds (insertRouteSky r p.pair) p.pair.first p.pair ∧
      Finds (insertRouteSky r p.pair) p.pair.second p.pair.swap

theorem insertRouteSky_keeps (hr : r.Sound) (p : Coded) : InsertKeeps r p := by
  have hhalf := insertHalf_sound hr p.first_code p.second_code
  refine ⟨fun b => ?_, fun b => insertHalf_pages hr, fun b => insertHalf_pages hhalf,
    fun hne h1 h2 => ?_⟩
  · obtain ⟨m, hm, _⟩ := insertHalf_keeps (e := p.pair) hr b
    obtain ⟨n, hn, _⟩ := insertHalf_keeps (e := p.pair.swap) hhalf b
    exact ⟨m + n, hm.trans hn⟩
  · have hne' : sameKey p.pair.swap.first p.pair.first = false := by
      rw [sameKey_comm]
      exact hne
    constructor
    · apply finds_of_lookup
      exact (lookup_insertHalf_other p.first_code hne').trans
        (lookup_insertHalf_self hr p.first_code (lookup_unstored p.first_code h1))
    · apply finds_of_lookup
      refine lookup_insertHalf_self (e := p.pair.swap) hhalf p.second_code ?_
      exact (lookup_insertHalf_other p.second_code hne).trans (lookup_unstored p.second_code h2)

end Insert

/-- After any sequence of inserts, every bucket holds the pairs inserted, both ways round, whose
first key is in it, each as often as it was inserted; and what one more insert does. -/
theorem inserts_keep_all (ps : List Coded) :
    (∀ b, ((inserted ps).entries b).Perm
      ((ps.flatMap Coded.entries).filter fun e => bucketOf e.first = b)) ∧
    ∀ p, InsertKeeps (inserted ps) p :=
  ⟨fun b => foldl_entries ps Routes.empty_all b, insertRouteSky_keeps (inserted_sound ps)⟩

/-! ## Removals -/

/-- The slot held an entry, and is free. -/
def Emptied (r r' : Routes) (t : SlotRef) : Prop :=
  (∃ e, r.slot? t = some e ∧ e.first.code ≠ 0) ∧ r'.slot? t = some .zero

/-- The entry at `s` and one that is the same pair the other way round are gone, and no more. -/
def RemovesPair (r r' : Routes) (s : SlotRef) : Prop :=
  Emptied r r' s ∧ ∃ t, t ≠ s ∧ r.slot? t = some (r.pair s).swap ∧ Emptied r r' t ∧
    ∀ u, u ≠ s → u ≠ t → r'.slot? u = r.slot? u

/-- A removal clears the entry found and nothing else, or does not clear it. -/
theorem removeRouteSky_found {r : Routes} {key : SkyData} {s : SlotRef} (hr : r.Sound)
    (hs : findRouteSky r key = some s) (hc : (r.pair s).first.code ≠ 0) :
    (r.clear s).SameSlots (removeRouteSky r key) ∨
      (removeRouteSky r key).slot? s = some (r.pair s) := by
  obtain ⟨_, p, hp, he, _⟩ := findRouteSky_some hs
  have hslot : r.slot? s = some (r.pair s) := Routes.slot?_some.mpr ⟨p, hp, he⟩
  have hb := (hr.slot hslot hc).1
  by_cases hfirst : firstUsed (r s.bucket) < s.page
  · exact .inr (removeRouteSky_stuck (P := fun _ => True) hs hb hfirst
      (fun _ _ _ _ _ _ _ _ _ _ => trivial) trivial).2
  · have hpos := hr.firstUsed_eq hslot hc hfirst
    exact .inl (removeRouteSky_cleared hr.clean hs hb hpos).1

theorem not_removesPair {r : Routes} {key : SkyData} {s : SlotRef} (hr : r.Sound)
    (hs : findRouteSky r key = some s) : ¬ RemovesPair r (removeRouteSky r key) s := by
  rintro ⟨⟨⟨e, he, hc⟩, hgone⟩, t, hts, _, ⟨⟨e', he', hc'⟩, hgone'⟩, _⟩
  rw [← Routes.pair_eq he] at hc
  obtain hsame | hstays := removeRouteSky_found hr hs hc
  · -- the other half stays
    have hstays' := hsame t
    rw [Routes.slot?_clear, if_neg hts, he', hgone'] at hstays'
    cases hstays'
    exact hc' rfl
  · -- the entry found stays
    rw [hgone] at hstays
    rw [← Option.some.inj hstays] at hc
    exact hc rfl

/-- No removal from a table that inserts have made takes a pair out of it. -/
theorem never_removes_pair (ps : List Coded) (key : SkyData) :
    ¬ ∃ s, findRouteSky (inserted ps) key = some s ∧
      RemovesPair (inserted ps) (removeRouteSky (inserted ps) key) s :=
  fun ⟨_, hs, h⟩ => not_removesPair (inserted_sound ps) hs h

/-- One pair inserted and removed by its first key: the other half is still there. -/
theorem other_half_stays :
    let client : SkyData := ⟨253, 8, 0x901f, 0x0a00000a, 0⟩
    let site : SkyData := ⟨253, 8, 0xbb01, 0x22d8b85d, 0⟩
    let r := inserted [⟨⟨client, site⟩, by decide, by decide⟩]
    ∃ s t, findRouteSky r client = some s ∧ t ≠ s ∧ r.slot? t = some (r.pair s).swap ∧
      ¬ RemovesPair r (removeRouteSky r client) s := by
  intro client site r
  have hs : findRouteSky r client = some ⟨bucketOf client, 0, 0⟩ := by decide +kernel
  have ht : r.slot? ⟨bucketOf site, 0, 0⟩ = some (r.pair ⟨bucketOf client, 0, 0⟩).swap := by
    decide +kernel
  exact ⟨_, _, hs, by decide +kernel, ht, not_removesPair (inserted_sound _) hs⟩

end Sky
end Xsky
