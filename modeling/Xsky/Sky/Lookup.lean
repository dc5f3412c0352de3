import Xsky.Sky.Removal

/-!
# Sky.Lookup

What `findRouteSky` returns after the table changes: `Routes.lookup` is the pair a key is found in.

* `lookup_insertHalf_other`, `lookup_insertHalf_same` — an entry stored changes the lookup of its
  own key only, and that one when it `leads`, when it goes before every other entry of its key.
* `lookup_congr` — a table that agrees on the slots of a key has the same lookup.
* `lookup_none_iff` — nothing is found exactly when no slot of the bucket has the key.
-/

namespace Xsky
namespace Sky

open Kit

namespace SkyDataPage

/-- The slot index the loop of `findRouteSky` stops at. -/
def keyAt (p : SkyDataPage) (d : SkyData) : Nat := p.seek (fun s => sameKey s.first d) 0

def entry (p : SkyDataPage) (d : SkyData) : Option SkyDataPair := p.pairs[p.keyAt d]?

/-- The free slot the page stores `e` in is before any entry of its key. -/
def leads (p : SkyDataPage) (e : SkyDataPair) : Bool :=
  decide (p.seek (fun s => s.first.code = 0) 0 < p.keyAt e.first)

theorem keyAt_le (p : SkyDataPage) (d : SkyData) : p.keyAt d ≤ skyDataPairSize := by
  have := seek_le (fun j => (p.pairs[j]?).any fun s => sameKey s.first d) (skyDataPairSize - 0) 0
  simpa [keyAt, seek] using this

theorem keyAt_congr {x d : SkyData} (h : sameKey x d = true) (p : SkyDataPage) :
    p.keyAt x = p.keyAt d := by
  simp only [keyAt, sameKey_congr h]

theorem entry_some {p : SkyDataPage} {d : SkyData} {e : SkyDataPair} (h : p.entry d = some e) :
    p.keyAt d < skyDataPairSize ∧ e ∈ p.pairs ∧ sameKey e.first d = true := by
  have hlt : p.keyAt d < skyDataPairSize := getElem?_lt h
  obtain ⟨_, e', he', hm⟩ := seek_found hlt
  have heq : some e' = some e := he'.symm.trans h
  cases heq
  exact ⟨hlt, Vector.mem_iff_getElem?.mpr ⟨_, h⟩, hm⟩

theorem entry_isSome {p : SkyDataPage} {d : SkyData} (h : p.keyAt d < skyDataPairSize) :
    ∃ e, p.entry d = some e := ⟨_, Vector.getElem?_eq_getElem h⟩

theorem entry_none_iff {p : SkyDataPage} {d : SkyData} :
    p.entry d = none ↔ ∀ e ∈ p.pairs, sameKey e.first d = false := by
  constructor
  · intro h e he
    obtain ⟨j, hj⟩ := Vector.mem_iff_getElem?.mp he
    refine seek_missed (q := fun s => sameKey s.first d) (i := 0) (fun hlt => ?_) (Nat.zero_le j) hj
    obtain ⟨e', he'⟩ := entry_isSome hlt
    rw [h] at he'
    cases he'
  · intro h
    cases he : p.entry d with
    | none => rfl
    | some e =>
      obtain ⟨_, hmem, hm⟩ := entry_some he
      rw [h e hmem] at hm
      cases hm

theorem entry_empty {d : SkyData} (hd : d.code ≠ 0) : empty.entry d = none := by
  rw [entry_none_iff]
  intro e he
  rw [mem_empty he, Bool.eq_false_iff]
  exact fun hm => hd (sameKey_iff.mp hm).1.symm

/-- Slot `j` has the key. -/
def hasKeyAt (p : SkyDataPage) (d : SkyData) (j : Nat) : Bool :=
  (p.pairs[j]?).any fun s => sameKey s.first d

/-- Pages that differ only in slots without the key find the same entry. -/
theorem entry_congr {p p' : SkyDataPage} {d : SkyData}
    (h : ∀ j : Nat, p'.pairs[j]? = p.pairs[j]? ∨
      p.hasKeyAt d j = false ∧ p'.hasKeyAt d j = false) :
    p'.entry d = p.entry d := by
  have hany : p'.hasKeyAt d = p.hasKeyAt d := by
    funext j
    obtain heq | ⟨hp, hp'⟩ := h j
    · rw [hasKeyAt, hasKeyAt, heq]
    · rw [hp, hp']
  have hkey : p'.keyAt d = p.keyAt d := by
    change Kit.seek (p'.hasKeyAt d) _ _ = Kit.seek (p.hasKeyAt d) _ _
    rw [hany]
  simp only [entry, hkey]
  obtain heq | ⟨hp, _⟩ := h (p.keyAt d)
  · exact heq
  · cases he : p.pairs[p.keyAt d]? with
    | none =>
      have hge : skyDataPairSize ≤ p.keyAt d := by
        simpa using he
      exact Vector.getElem?_eq_none hge
    | some e =>
      rw [hasKeyAt, he, Option.any_some, (entry_some he).2.2] at hp
      cases hp

theorem getElem?_store (p : SkyDataPage) (e : SkyDataPair) (j : Nat) :
    (p.store e).pairs[j]? =
      if p.seek (fun s => s.first.code = 0) 0 = j ∧ j < skyDataPairSize then some e
      else p.pairs[j]? := by
  simp only [store]
  split
  · rename_i hlt
    rw [Vector.getElem?_setIfInBounds]
    by_cases heq : p.seek (fun s => s.first.code = 0) 0 = j
    · rw [if_pos heq, if_pos hlt, if_pos ⟨heq, heq ▸ hlt⟩]
    · have hne : ¬ (p.seek (fun s => s.first.code = 0) 0 = j ∧ j < skyDataPairSize) :=
        fun h => heq h.1
      rw [if_neg heq, if_neg hne]
  · rename_i hlt
    have hne : ¬ (p.seek (fun s => s.first.code = 0) 0 = j ∧ j < skyDataPairSize) :=
      fun h => hlt (h.1 ▸ h.2)
    rw [if_neg hne]

/-- A free slot has no key but zeros. -/
theorem free_any {p : SkyDataPage} {d : SkyData} {j : Nat} (hd : d.code ≠ 0)
    (hj : p.seek (fun s => s.first.code = 0) 0 = j) (hlt : j < skyDataPairSize) :
    p.hasKeyAt d j = false := by
  subst hj
  obtain ⟨_, e, he, hc⟩ := seek_found hlt
  rw [hasKeyAt, he, Option.any_some, Bool.eq_false_iff]
  exact fun hm => hd ((sameKey_iff.mp hm).1.symm.trans (of_decide_eq_true hc))

theorem entry_store_other {p : SkyDataPage} {d : SkyData} {e : SkyDataPair} (hd : d.code ≠ 0)
    (he : sameKey e.first d = false) : (p.store e).entry d = p.entry d := by
  apply entry_congr
  intro j
  by_cases h : p.seek (fun s => s.first.code = 0) 0 = j ∧ j < skyDataPairSize
  · refine .inr ⟨free_any hd h.1 h.2, ?_⟩
    rw [hasKeyAt, getElem?_store, if_pos h, Option.any_some, he]
  · refine .inl ?_
    rw [getElem?_store, if_neg h]

theorem entry_store_same {p : SkyDataPage} {d : SkyData} {e : SkyDataPair} (hd : d.code ≠ 0)
    (he : sameKey e.first d = true) :
    (p.store e).entry d = if p.leads e then some e else p.entry d := by
  have hkey := keyAt_congr he p
  have hstore := p.getElem?_store e
  simp only [leads, hkey, decide_eq_true_eq]
  by_cases hfree : p.seek (fun s => s.first.code = 0) 0 < p.keyAt d
  · -- the slot stored in is the first with the key
    have hlt := Nat.lt_of_lt_of_le hfree (keyAt_le p d)
    have hat : (p.store e).keyAt d = p.seek (fun s => s.first.code = 0) 0 := by
      refine seek_eq (Nat.zero_le _) (by omega) ?_ fun x _ hx => ?_
      · simp only [hstore, hlt, and_self, if_true, Option.any_some, he]
      · simp only [hstore]
        rw [if_neg (by omega)]
        have hx' : x < p.keyAt d := by omega
        exact seek_first (Nat.zero_le x) hx'
    rw [if_pos hfree, entry, hat, hstore, if_pos ⟨rfl, hlt⟩]
  · rw [if_neg hfree]
    by_cases hnone : p.keyAt d < skyDataPairSize
    · -- the first slot with the key stays the first
      have hne : p.seek (fun s => s.first.code = 0) 0 ≠ p.keyAt d := by
        intro heq
        have hany := free_any hd heq hnone
        obtain ⟨e', he'⟩ := entry_isSome hnone
        rw [entry] at he'
        rw [hasKeyAt, he', Option.any_some, (entry_some he').2.2] at hany
        cases hany
      have hat : (p.store e).keyAt d = p.keyAt d := by
        refine seek_eq (Nat.zero_le _) (by omega) ?_ fun x _ hx => ?_
        · obtain ⟨e', he'⟩ := entry_isSome hnone
          simp only [hstore]
          rw [if_neg (fun h => hne h.1), show p.pairs[p.keyAt d]? = some e' from he',
            Option.any_some, (entry_some he').2.2]
        · simp only [hstore]
          rw [if_neg (by omega)]
          exact seek_first (Nat.zero_le x) hx
      rw [entry, hat, hstore, if_neg (fun h => hne h.1)]
      rfl
    · -- the page is full, and stores nothing
      have hpage : p.store e = p := by
        simp only [store]
        rw [if_neg (by omega)]
      rw [hpage]

end SkyDataPage

/-! ## The chain -/

/-- What is found, rather than where. -/
def Routes.lookup (r : Routes) (d : SkyData) : Option SkyDataPair := (findRouteSky r d).map r.pair

theorem findInChain_entry (d : SkyData) (ps : List SkyDataPage) (n : Nat) :
    ((findInChain d ps n).bind fun s => (ps[s.1 - n]?).bind (·.pairs[s.2]?)) =
      ps.findSome? (·.entry d) := by
  induction ps generalizing n with
  | nil => rfl
  | cons p ps ih =>
    rw [List.findSome?_cons]
    simp only [findInChain]
    by_cases hlt : p.keyAt d < skyDataPairSize
    · obtain ⟨e, he⟩ := p.entry_isSome hlt
      simp only [SkyDataPage.keyAt] at hlt
      rw [if_pos hlt, he]
      simp only [Option.bind_some, Nat.sub_self, List.getElem?_cons_zero]
      exact he
    · have hnone : p.entry d = none := Vector.getElem?_eq_none (Nat.le_of_not_lt hlt)
      simp only [SkyDataPage.keyAt] at hlt
      rw [if_neg hlt, hnone]
      simp only
      rw [← ih (n + 1)]
      cases hf : findInChain d ps (n + 1) with
      | none => rfl
      | some s =>
        obtain ⟨hle, _⟩ := findInChain_some (k := s.1) (i := s.2) hf
        have hs : s.1 - n = s.1 - (n + 1) + 1 := by omega
        simp only [Option.bind_some, hs, List.getElem?_cons_succ]

theorem lookup_eq (r : Routes) (d : SkyData) :
    r.lookup d = (r (bucketOf d)).findSome? (·.entry d) := by
  rw [← findInChain_entry d _ 0, Routes.lookup]
  cases hf : findRouteSky r d with
  | none =>
    rw [findRouteSky, Option.map_eq_none_iff] at hf
    rw [hf]
    rfl
  | some s =>
    obtain ⟨_, p, hp, he, _⟩ := findRouteSky_some hf
    obtain ⟨⟨k, i⟩, hc, rfl⟩ := Option.map_eq_some_iff.mp hf
    rw [hc, Option.map_some, Option.bind_some, Nat.sub_zero]
    simp only at hp he
    rw [hp, Option.bind_some, he]

theorem lookup_none_iff {r : Routes} {d : SkyData} :
    r.lookup d = none ↔ ∀ p ∈ r (bucketOf d), ∀ e ∈ p.pairs, sameKey e.first d = false := by
  rw [lookup_eq, List.findSome?_eq_none_iff]
  simp only [SkyDataPage.entry_none_iff]

theorem lookup_some {r : Routes} {d : SkyData} {e : SkyDataPair} (h : r.lookup d = some e) :
    (∃ p ∈ r (bucketOf d), e ∈ p.pairs) ∧ sameKey e.first d = true := by
  rw [lookup_eq] at h
  obtain ⟨p, hp, he⟩ := List.exists_of_findSome?_eq_some h
  obtain ⟨_, hmem, hm⟩ := SkyDataPage.entry_some he
  exact ⟨⟨p, hp, hmem⟩, hm⟩

/-- In the chain, no entry of the key of `e` is before the slot it is stored in. -/
def leadsInChain (e : SkyDataPair) : List SkyDataPage → Bool
  | [] => false
  | p :: ps =>
    if p.used < skyDataPairSize then p.leads e
    else (p.entry e.first).isNone && leadsInChain e ps

/-- `insertHalf` stores `e`, and before every entry of its key: in a new page at the front of the
chain, or in a page picked from it. -/
def leads (r : Routes) (e : SkyDataPair) : Bool :=
  match storeInChain e (r (bucketOf e.first)) with
  | none => true
  | some _ => leadsInChain e (r (bucketOf e.first))

theorem entry_first {d : SkyData} {e : SkyDataPair} (he : sameKey e.first d = true)
    (p : SkyDataPage) : p.entry e.first = p.entry d := by
  rw [SkyDataPage.entry, SkyDataPage.keyAt_congr he, SkyDataPage.entry]

theorem storeInChain_other {d : SkyData} {e : SkyDataPair} {ps qs : List SkyDataPage}
    (hd : d.code ≠ 0) (he : sameKey e.first d = false) (h : storeInChain e ps = some qs) :
    qs.findSome? (·.entry d) = ps.findSome? (·.entry d) := by
  induction ps generalizing qs with
  | nil => cases h
  | cons p ps ih =>
    simp only [storeInChain] at h
    split at h
    · cases h
      rw [List.findSome?_cons, List.findSome?_cons, SkyDataPage.entry_store_other hd he]
    · obtain ⟨qs', hqs, rfl⟩ := Option.map_eq_some_iff.mp h
      rw [List.findSome?_cons, List.findSome?_cons, ih hqs]

theorem storeInChain_same {d : SkyData} {e : SkyDataPair} {ps qs : List SkyDataPage}
    (hd : d.code ≠ 0) (he : sameKey e.first d = true) (h : storeInChain e ps = some qs) :
    qs.findSome? (·.entry d) =
      if leadsInChain e ps then some e else ps.findSome? (·.entry d) := by
  induction ps generalizing qs with
  | nil => cases h
  | cons p ps ih =>
    simp only [storeInChain] at h
    split at h
    · rename_i hu
      cases h
      have hl : leadsInChain e (p :: ps) = p.leads e := by simp only [leadsInChain, if_pos hu]
      rw [List.findSome?_cons, List.findSome?_cons, SkyDataPage.entry_store_same hd he, hl]
      by_cases hlead : p.leads e = true
      · rw [if_pos hlead, if_pos hlead]
      · rw [if_neg hlead, if_neg hlead]
    · rename_i hu
      obtain ⟨qs', hqs, rfl⟩ := Option.map_eq_some_iff.mp h
      have hl : leadsInChain e (p :: ps) = ((p.entry d).isNone && leadsInChain e ps) := by
        simp only [leadsInChain, if_neg hu, entry_first he]
      rw [List.findSome?_cons, List.findSome?_cons, ih hqs, hl]
      cases p.entry d with
      | none => simp
      | some e' => simp

section Insert

variable {r : Routes} {e : SkyDataPair} {d : SkyData}

theorem insertHalf_chain (r : Routes) (e : SkyDataPair) :
    insertHalf r e (bucketOf e.first) =
      (storeInChain e (r (bucketOf e.first))).getD
        (SkyDataPage.empty.store e :: r (bucketOf e.first)) := by
  simp only [insertHalf]
  cases storeInChain e (r (bucketOf e.first)) with
  | none => exact Routes.setChain_self _ _ _
  | some ps => exact Routes.setChain_self _ _ _

theorem insertHalf_chain_other {b : Nat} (hb : b ≠ bucketOf e.first) : insertHalf r e b = r b := by
  simp only [insertHalf]
  cases storeInChain e (r (bucketOf e.first)) with
  | none => exact Routes.setChain_other _ _ hb
  | some ps => exact Routes.setChain_other _ _ hb

theorem lookup_insertHalf_other (hd : d.code ≠ 0) (he : sameKey e.first d = false) :
    (insertHalf r e).lookup d = r.lookup d := by
  rw [lookup_eq, lookup_eq]
  by_cases hb : bucketOf d = bucketOf e.first
  · rw [hb, insertHalf_chain]
    cases hps : storeInChain e (r (bucketOf e.first)) with
    | some ps => exact storeInChain_other hd he hps
    | none =>
      rw [Option.getD_none, List.findSome?_cons, SkyDataPage.entry_store_other hd he,
        SkyDataPage.entry_empty hd]
  · rw [insertHalf_chain_other hb]

/-- A new page stores its first entry before any other. -/
theorem empty_leads (he : e.first.code ≠ 0) : SkyDataPage.empty.leads e = true := by
  have hkey : SkyDataPage.empty.keyAt e.first = skyDataPairSize := by
    apply Nat.le_antisymm (SkyDataPage.keyAt_le _ _)
    apply Nat.le_of_not_lt
    intro hlt
    obtain ⟨e', he'⟩ := SkyDataPage.entry_isSome hlt
    rw [SkyDataPage.entry_empty he] at he'
    cases he'
  simp only [SkyDataPage.leads, hkey]
  decide

theorem lookup_insertHalf_same (hd : d.code ≠ 0) (he : sameKey e.first d = true)
    (hb : bucketOf e.first = bucketOf d) :
    (insertHalf r e).lookup d = if leads r e then some e else r.lookup d := by
  rw [lookup_eq, lookup_eq, ← hb, insertHalf_chain]
  cases hps : storeInChain e (r (bucketOf e.first)) with
  | some ps =>
    have hl : leads r e = leadsInChain e (r (bucketOf e.first)) := by simp only [leads, hps]
    rw [hl]
    exact storeInChain_same hd he hps
  | none =>
    have hl : leads r e = true := by simp only [leads, hps]
    rw [hl, Option.getD_none, List.findSome?_cons, SkyDataPage.entry_store_same hd he,
      if_pos (empty_leads (sameKey_code he hd)), if_pos rfl]

end Insert

/-! ## Other changes -/

/-- The slot has the key. -/
def Routes.HasKey (r : Routes) (d : SkyData) (t : SlotRef) : Prop :=
  ∃ e, r.slot? t = some e ∧ sameKey e.first d = true

theorem lookup_congr {r r' : Routes} {d : SkyData}
    (hsome : ∀ t, (r'.slot? t).isSome = (r.slot? t).isSome)
    (h : ∀ t, r'.slot? t = r.slot? t ∨ ¬ r.HasKey d t ∧ ¬ r'.HasKey d t) :
    r'.lookup d = r.lookup d := by
  have hpage : ∀ r : Routes, ∀ b k : Nat,
      ((r b)[k]?).isSome = (r.slot? ⟨b, k, 0⟩).isSome := by
    intro r b k
    simp only [Routes.slot?]
    cases (r b)[k]? with
    | none => rfl
    | some p =>
      have h0 : (0 : Nat) < skyDataPairSize := by decide
      simp [h0]
  have hany : ∀ r : Routes, ∀ k p j, (r (bucketOf d))[k]? = some p →
      ¬ r.HasKey d ⟨bucketOf d, k, j⟩ → p.hasKeyAt d j = false := by
    intro r k p j hk hno
    rw [Bool.eq_false_iff]
    intro hm
    obtain ⟨e, he, hm⟩ := (Option.any_eq_true _ _).mp hm
    exact hno ⟨e, Routes.slot?_some.mpr ⟨p, hk, he⟩, hm⟩
  have hmap : (r' (bucketOf d)).map (·.entry d) = (r (bucketOf d)).map (·.entry d) := by
    apply List.ext_getElem?
    intro k
    rw [List.getElem?_map, List.getElem?_map]
    have hk := hsome ⟨bucketOf d, k, 0⟩
    rw [← hpage, ← hpage] at hk
    cases hp : (r (bucketOf d))[k]? with
    | none =>
      rw [hp] at hk
      cases hp' : (r' (bucketOf d))[k]? with
      | none => rfl
      | some p' =>
        rw [hp'] at hk
        cases hk
    | some p =>
      rw [hp] at hk
      obtain ⟨p', hp'⟩ := Option.isSome_iff_exists.mp hk
      rw [hp', Option.map_some, Option.map_some]
      congr 1
      refine SkyDataPage.entry_congr fun j => ?_
      obtain heq | ⟨hno, hno'⟩ := h ⟨bucketOf d, k, j⟩
      · simp only [Routes.slot?, hp, hp', Option.bind_some] at heq
        exact .inl heq
      · exact .inr ⟨hany r k p j hp hno, hany r' k p' j hp' hno'⟩
  have hid : ∀ ps : List SkyDataPage,
      ps.findSome? (·.entry d) = (ps.map (·.entry d)).findSome? id := by
    intro ps
    rw [List.findSome?_map]
    rfl
  rw [lookup_eq, lookup_eq, hid, hmap, ← hid]

/-- A removal leaves the lookup of every key alone that is neither half of the entry found. -/
theorem Pruned.lookup {q : SkyDataPair} {r r' : Routes} {d : SkyData} (h : Pruned q r r')
    (hd : d.code ≠ 0) (h1 : sameKey q.first d = false) (h2 : sameKey q.second d = false) :
    r'.lookup d = r.lookup d := by
  refine lookup_congr (fun t => ?_) fun t => ?_
  · obtain heq | ⟨hzero, e, he, _⟩ := h.slots t
    · rw [heq]
    · rw [hzero, he]
      rfl
  · obtain heq | ⟨hzero, e, he, hm⟩ := h.slots t
    · exact .inl heq
    · refine .inr ⟨?_, ?_⟩
      · rintro ⟨e', he', hk⟩
        rw [he] at he'
        cases he'
        obtain hm | hm := hm
        · rw [sameKey_cancel hm hk] at h1
          cases h1
        · rw [sameKey_cancel hm hk] at h2
          cases h2
      · rintro ⟨e', he', hk⟩
        rw [hzero] at he'
        cases he'
        exact hd (sameKey_iff.mp hk).1.symm

/-- So does clearing a slot with another key. -/
theorem lookup_cleared {r r' : Routes} {s : SlotRef} {d : SkyData}
    (h : (r.clear s).SameSlots r') (hd : d.code ≠ 0) (hs : sameKey (r.pair s).first d = false) :
    r'.lookup d = r.lookup d := by
  refine lookup_congr (fun t => ?_) fun t => ?_
  · rw [h t, Routes.slot?_clear]
    split
    · rw [Option.isSome_map]
    · rfl
  · by_cases ht : t = s
    · subst ht
      refine .inr ⟨?_, ?_⟩
      · rintro ⟨e, he, hm⟩
        rw [Routes.pair_eq he, hm] at hs
        cases hs
      · rintro ⟨e, he, hm⟩
        rw [h t, Routes.slot?_clear, if_pos rfl] at he
        obtain ⟨_, _, rfl⟩ := Option.map_eq_some_iff.mp he
        exact hd (sameKey_iff.mp hm).1.symm
    · exact .inl (by rw [h t, Routes.slot?_clear, if_neg ht])

end Sky
end Xsky
