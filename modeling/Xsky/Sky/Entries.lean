import Xsky.Sky.Route

/-!
# Sky.Entries

The route table never invents a mapping: `stored_from_inserts`, over every sequence of inserts and
removals from the empty table.

* `Routes.All` — a property of every page, with its bucket.
* `insertHalf_all`, `clear_all` — what keeps it: one page is stored into, or one slot cleared.
* `removeLoop_inv` — what the loops of `removeRouteSky` keep: anything kept by clearing a slot that
  matched the key as it is read at that moment.
-/

namespace Xsky
namespace Sky

open Kit

namespace SkyDataPage

/-! ## Looking through a page -/

theorem seek_found {p : SkyDataPage} {q : SkyDataPair → Bool} {i : Nat}
    (h : p.seek q i < skyDataPairSize) :
    i ≤ p.seek q i ∧ ∃ e, p.pairs[p.seek q i]? = some e ∧ q e = true := by
  have hi : i ≤ p.seek q i := le_seek _ _ _
  refine ⟨hi, ?_⟩
  have hq := seek_holds (q := fun j => (p.pairs[j]?).any q) (k := skyDataPairSize - i) (i := i)
    (by simp only [seek] at h hi; omega)
  exact Option.any_eq_true _ _ |>.mp hq

/-- The slots the loop has passed do not have the property. -/
theorem seek_passed {p : SkyDataPage} {q : SkyDataPair → Bool} {i j : Nat} {e : SkyDataPair}
    (hi : i ≤ j) (hj : j < p.seek q i) (he : p.pairs[j]? = some e) : q e = false := by
  have := seek_first (q := fun j => (p.pairs[j]?).any q) hi hj
  simpa [he] using this

theorem getElem?_lt {p : SkyDataPage} {j : Nat} {e : SkyDataPair} (h : p.pairs[j]? = some e) :
    j < skyDataPairSize := by
  apply Nat.lt_of_not_le
  intro hj
  rw [Vector.getElem?_eq_none hj] at h
  cases h

theorem seek_missed {p : SkyDataPage} {q : SkyDataPair → Bool} {i j : Nat} {e : SkyDataPair}
    (h : ¬ p.seek q i < skyDataPairSize) (hi : i ≤ j) (he : p.pairs[j]? = some e) :
    q e = false :=
  seek_passed hi (by have := getElem?_lt he; omega) he

/-! ## Changing a page -/

theorem getElem?_clear (p : SkyDataPage) (i j : Nat) :
    (p.clear i).pairs[j]? = if i = j then (p.pairs[j]?).map fun _ => .zero else p.pairs[j]? := by
  simp only [clear, Vector.getElem?_setIfInBounds]
  split
  · rename_i h
    subst h
    by_cases hi : i < skyDataPairSize
    · simp [hi]
    · simp [hi]
  · rfl

theorem mem_clear {p : SkyDataPage} {i : Nat} {x : SkyDataPair} (h : x ∈ (p.clear i).pairs) :
    x ∈ p.pairs ∨ x = .zero := by
  obtain ⟨j, hj⟩ := Vector.mem_iff_getElem?.mp h
  rw [getElem?_clear] at hj
  split at hj
  · cases hp : p.pairs[j]? with
    | none => rw [hp] at hj; cases hj
    | some e =>
      rw [hp] at hj
      cases hj
      exact .inr rfl
  · exact .inl (Vector.mem_iff_getElem?.mpr ⟨j, hj⟩)

theorem mem_store {p : SkyDataPage} {e x : SkyDataPair} (h : x ∈ (p.store e).pairs) :
    x ∈ p.pairs ∨ x = e := by
  simp only [store] at h
  split at h
  · obtain ⟨j, hj⟩ := Vector.mem_iff_getElem?.mp h
    rw [Vector.getElem?_setIfInBounds] at hj
    split at hj
    · cases hj
      exact .inr rfl
    · exact .inl (Vector.mem_iff_getElem?.mpr ⟨j, hj⟩)
  · exact .inl h

theorem mem_empty {x : SkyDataPair} (h : x ∈ empty.pairs) : x = .zero :=
  (Vector.mem_replicate.mp h).2

end SkyDataPage

/-! ## Changing the table -/

namespace Routes

def All (Q : Nat → SkyDataPage → Prop) (r : Routes) : Prop := ∀ b p, p ∈ r b → Q b p

@[simp] theorem setChain_self (r : Routes) (b : Nat) (ps : List SkyDataPage) :
    r.setChain b ps b = ps := by
  simp [setChain]

theorem setChain_other (r : Routes) {b c : Nat} (ps : List SkyDataPage) (h : c ≠ b) :
    r.setChain b ps c = r c := by
  simp [setChain, h]

variable {Q : Nat → SkyDataPage → Prop} {r : Routes}

theorem setChain_all {b : Nat} {ps : List SkyDataPage} (hr : r.All Q) (hps : ∀ p ∈ ps, Q b p) :
    (r.setChain b ps).All Q := by
  intro c p hp
  by_cases hc : c = b
  · subst hc
    rw [setChain_self] at hp
    exact hps p hp
  · rw [setChain_other r ps hc] at hp
    exact hr c p hp

theorem empty_all : empty.All Q := by
  intro b p hp
  cases hp

theorem getElem?_clear (r : Routes) (b k j c x : Nat) :
    (r.clear ⟨b, k, j⟩ c)[x]? =
      if c = b ∧ x = k then ((r c)[x]?).map (·.clear j) else (r c)[x]? := by
  by_cases hc : c = b
  · subst hc
    rw [clear, setChain_self, List.getElem?_modify]
    by_cases hx : x = k
    · simp [hx]
    · have : ¬ k = x := fun h => hx h.symm
      simp [hx, this]
  · rw [clear, setChain_other _ _ hc, if_neg (fun h => hc h.1)]

theorem clear_all {b k j : Nat} {page : SkyDataPage} (hr : r.All Q) (hk : (r b)[k]? = some page)
    (hQ : Q b page → Q b (page.clear j)) : (r.clear ⟨b, k, j⟩).All Q := by
  intro c p hp
  obtain ⟨x, hx⟩ := List.getElem?_of_mem hp
  rw [getElem?_clear] at hx
  split at hx
  · rename_i h
    obtain ⟨rfl, rfl⟩ := h
    rw [hk] at hx
    cases hx
    exact hQ (hr c page (List.mem_of_getElem? hk))
  · exact hr c p (List.mem_of_getElem? hx)

end Routes

theorem storeInChain_all {P : SkyDataPage → Prop} {e : SkyDataPair} {ps qs : List SkyDataPage}
    (hps : ∀ p ∈ ps, P p) (hstore : ∀ p, P p → p.used < skyDataPairSize → P (p.store e))
    (h : storeInChain e ps = some qs) : ∀ p ∈ qs, P p := by
  induction ps generalizing qs with
  | nil => cases h
  | cons p ps ih =>
    have hp := hps p List.mem_cons_self
    have hrest : ∀ x ∈ ps, P x := fun x hx => hps x (List.mem_cons_of_mem _ hx)
    simp only [storeInChain] at h
    split at h
    · rename_i hu
      cases h
      intro x hx
      obtain rfl | hx := List.mem_cons.mp hx
      · exact hstore p hp hu
      · exact hrest x hx
    · obtain ⟨qs', hqs, rfl⟩ := Option.map_eq_some_iff.mp h
      intro x hx
      obtain rfl | hx := List.mem_cons.mp hx
      · exact hp
      · exact ih hrest hqs x hx

theorem insertHalf_all {Q : Nat → SkyDataPage → Prop} {r : Routes} {e : SkyDataPair}
    (hr : r.All Q) (hnew : Q (bucketOf e.first) .empty)
    (hstore : ∀ p, Q (bucketOf e.first) p → p.used < skyDataPairSize →
      Q (bucketOf e.first) (p.store e)) : (insertHalf r e).All Q := by
  simp only [insertHalf]
  split
  · rename_i ps hps
    exact Routes.setChain_all hr (storeInChain_all (hr _) hstore hps)
  · apply Routes.setChain_all hr
    intro p hp
    obtain rfl | hp := List.mem_cons.mp hp
    · exact hstore .empty hnew (by decide)
    · exact hr _ p hp

section Removal

variable {P : Routes → Prop} {side : SkyDataPair → SkyData} {pair : SlotRef} {b : Nat}

theorem removeLoop_inv
    (hP : ∀ r k j page e, P r → (r b)[k]? = some page → page.used > 0 → page.pairs[j]? = some e →
      sameKey e.first (side (r.pair pair)) = true → P (r.clear ⟨b, k, j⟩))
    (n k i : Nat) {r : Routes} (hr : P r) : P (removeLoop side pair b n k i r) := by
  induction n generalizing k i r with
  | zero => exact hr
  | succ n ih =>
    simp only [removeLoop]
    split
    · exact hr
    · rename_i page hk
      split
      · rename_i hu
        split
        · rename_i hj
          obtain ⟨_, e, he, hm⟩ := SkyDataPage.seek_found hj
          exact ih _ _ (hP r k _ page e hr hk hu he hm)
        · exact ih _ _ hr
      · exact ih _ _ hr

end Removal

/-! ## What the table was told -/

/-- An operation on the table; both halves of a pair to insert have a code. -/
inductive RouteOp where
  | insert (pair : SkyDataPair) (hfirst : pair.first.code ≠ 0) (hsecond : pair.second.code ≠ 0)
  | remove (key : SkyData)

def routeStep (r : Routes) : RouteOp → Routes
  | .insert pair _ _ => insertRouteSky r pair
  | .remove key => removeRouteSky r key

def RouteOp.inserted : RouteOp → List SkyDataPair
  | .insert pair _ _ => [pair]
  | .remove _ => []

def SkyDataPair.swap (e : SkyDataPair) : SkyDataPair := ⟨e.second, e.first⟩

/-- Every entry of the page, in bucket `b`, has the property. -/
def Entries (R : Nat → SkyDataPair → Prop) (b : Nat) (p : SkyDataPage) : Prop :=
  ∀ e ∈ p.pairs, e.first.code ≠ 0 → R b e

section Entries

variable {R : Nat → SkyDataPair → Prop} {b : Nat} {p : SkyDataPage}

theorem Entries.empty : Entries R b .empty := by
  intro e he hc
  cases SkyDataPage.mem_empty he
  exact absurd rfl hc

theorem Entries.clear {j : Nat} (h : Entries R b p) : Entries R b (p.clear j) := by
  intro e he hc
  obtain he | rfl := SkyDataPage.mem_clear he
  · exact h e he hc
  · exact absurd rfl hc

theorem Entries.store {e : SkyDataPair} (h : Entries R b p) (he : R b e) :
    Entries R b (p.store e) := by
  intro x hx hc
  obtain hx | rfl := SkyDataPage.mem_store hx
  · exact h x hx hc
  · exact he

theorem Entries.mono {R' : Nat → SkyDataPair → Prop} (hR : ∀ b e, R b e → R' b e)
    (h : Entries R b p) : Entries R' b p := fun e he hc => hR b e (h e he hc)

theorem insertRouteSky_entries {r : Routes} {pair : SkyDataPair} (hr : r.All (Entries R))
    (h1 : R (bucketOf pair.first) pair) (h2 : R (bucketOf pair.second) pair.swap) :
    (insertRouteSky r pair).All (Entries R) := by
  have hhalf : (insertHalf r pair).All (Entries R) :=
    insertHalf_all hr .empty fun p hp _ => hp.store h1
  exact insertHalf_all hhalf .empty fun p hp _ => hp.store h2

theorem removeRouteSky_entries {r : Routes} (key : SkyData) (hr : r.All (Entries R)) :
    (removeRouteSky r key).All (Entries R) := by
  simp only [removeRouteSky]
  split
  · exact hr
  · refine removeLoop_inv ?_ _ _ _ (removeLoop_inv ?_ _ _ _ hr) <;>
    · intro r' k j page e hr' hk _ _ _
      exact Routes.clear_all hr' hk .clear

end Entries

/-- One of the pairs, or one of them the other way round. -/
def FromInserts (pairs : List SkyDataPair) (e : SkyDataPair) : Prop :=
  ∃ pair ∈ pairs, e = pair ∨ e = pair.swap

/-- In the bucket of its key, and one of the pairs or one the other way round. -/
def Genuine (pairs : List SkyDataPair) (b : Nat) (e : SkyDataPair) : Prop :=
  b = bucketOf e.first ∧ FromInserts pairs e

theorem Genuine.mono {pairs more : List SkyDataPair} {b : Nat} {e : SkyDataPair}
    (h : Genuine pairs b e) : Genuine (pairs ++ more) b e := by
  obtain ⟨hb, pair, hp, hor⟩ := h
  exact ⟨hb, pair, List.mem_append_left _ hp, hor⟩

theorem routeStep_genuine {pairs : List SkyDataPair} {r : Routes} {op : RouteOp}
    (hr : r.All (Entries (Genuine pairs))) :
    (routeStep r op).All (Entries (Genuine (pairs ++ op.inserted))) := by
  have hmono : r.All (Entries (Genuine (pairs ++ op.inserted))) :=
    fun b p hp => (hr b p hp).mono fun _ _ => Genuine.mono
  cases op with
  | insert pair h1 h2 =>
    have hmem : pair ∈ pairs ++ [pair] := by simp
    exact insertRouteSky_entries hmono ⟨rfl, pair, hmem, .inl rfl⟩ ⟨rfl, pair, hmem, .inr rfl⟩
  | remove key => exact removeRouteSky_entries key hmono

theorem foldl_genuine (ops : List RouteOp) {pairs : List SkyDataPair} {r : Routes}
    (hr : r.All (Entries (Genuine pairs))) :
    (ops.foldl routeStep r).All
      (Entries (Genuine (pairs ++ ops.flatMap RouteOp.inserted))) := by
  induction ops generalizing pairs r with
  | nil => simpa using hr
  | cons op ops ih =>
    rw [List.foldl_cons, List.flatMap_cons, ← List.append_assoc]
    exact ih (routeStep_genuine hr)

/-! ## Lookups -/

theorem findInChain_some {d : SkyData} {ps : List SkyDataPage} {n k i : Nat}
    (h : findInChain d ps n = some (k, i)) :
    n ≤ k ∧ ∃ p e, ps[k - n]? = some p ∧ p.pairs[i]? = some e ∧ sameKey e.first d = true := by
  induction ps generalizing n with
  | nil => cases h
  | cons p ps ih =>
    simp only [findInChain] at h
    split at h
    · rename_i hi
      cases h
      obtain ⟨_, e, he, hm⟩ := SkyDataPage.seek_found hi
      exact ⟨Nat.le_refl _, p, e, by simp, he, hm⟩
    · obtain ⟨hle, q, e, hq, he, hm⟩ := ih h
      have hk : k - n = k - (n + 1) + 1 := by omega
      refine ⟨by omega, q, e, ?_, he, hm⟩
      rw [hk, List.getElem?_cons_succ]
      exact hq

/-- The slot found is in the bucket of the key, and matches it. -/
theorem findRouteSky_some {r : Routes} {d : SkyData} {s : SlotRef}
    (h : findRouteSky r d = some s) :
    s.bucket = bucketOf d ∧ ∃ p, (r s.bucket)[s.page]? = some p ∧
      p.pairs[s.slot]? = some (r.pair s) ∧ sameKey (r.pair s).first d = true := by
  obtain ⟨⟨k, i⟩, hf, rfl⟩ := Option.map_eq_some_iff.mp h
  obtain ⟨_, p, e, hp, he, hm⟩ := findInChain_some hf
  have hpair : r.pair ⟨bucketOf d, k, i⟩ = e := by
    rw [Nat.sub_zero] at hp
    simp [Routes.pair, Routes.slot?, hp, he]
  rw [hpair]
  exact ⟨rfl, p, by simpa using hp, he, hm⟩

/-- Every entry of the table after a sequence of inserts and removals is an inserted pair, or one
the other way round, in the bucket of its key; so is what a lookup finds. -/
theorem stored_from_inserts (ops : List RouteOp) :
    let r := ops.foldl routeStep .empty
    let inserted := ops.flatMap RouteOp.inserted
    (∀ b p e, p ∈ r b → e ∈ p.pairs → e.first.code ≠ 0 →
      b = bucketOf e.first ∧ FromInserts inserted e) ∧
    (∀ key s, key.code ≠ 0 → findRouteSky r key = some s →
      sameKey (r.pair s).first key = true ∧ FromInserts inserted (r.pair s)) := by
  intro r inserted
  have hr : r.All (Entries (Genuine inserted)) := by
    have h := foldl_genuine ops (Routes.empty_all (Q := Entries (Genuine [])))
    rwa [List.nil_append] at h
  refine ⟨fun b p e hp he hc => hr b p hp e he hc, fun key s hkey hs => ?_⟩
  obtain ⟨_, p, hp, he, hm⟩ := findRouteSky_some hs
  refine ⟨hm, (hr _ p (List.mem_of_getElem? hp) _ (Vector.mem_iff_getElem?.mpr ⟨_, he⟩) ?_).2⟩
  exact sameKey_code hm hkey

end Sky
end Xsky
