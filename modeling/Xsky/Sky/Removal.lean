import Xsky.Sky.Entries

/-!
# Sky.Removal

What `removeRouteSky` does to the slots of the table. The slot index of its loops is not reset from
page to page, so a loop that misses in one page misses in all that follow; and once the slot of the
key itself is cleared, the key read through the pointer is all zeros and matches free slots.

* `removeRouteSky_stuck` — when a page before that of the entry found has entries, the first loop
  does nothing, and the second looks for the other half of the entry.
* `removeRouteSky_cleared` — otherwise the entry is cleared, and nothing else changes in any slot:
  the rest of both loops only counts free slots out of their pages.
* `removeRouteSky_pruned` — either way a slot keeps its pair, or is cleared and matched one half of
  the entry found.
-/

namespace Xsky
namespace Sky

open Kit

def SkyData.zero : SkyData := ⟨0, 0, 0, 0, 0⟩

/-! ## Free slots -/

/-- The free slots of the page are all zeros. -/
def SkyDataPage.Clean (p : SkyDataPage) : Prop := ∀ e ∈ p.pairs, e.first.code = 0 → e = .zero

theorem SkyDataPage.Clean.empty : SkyDataPage.empty.Clean := fun _ he _ => mem_empty he

theorem SkyDataPage.Clean.clear {p : SkyDataPage} {j : Nat} (h : p.Clean) : (p.clear j).Clean := by
  intro e he hc
  obtain he | rfl := mem_clear he
  · exact h e he hc
  · rfl

theorem SkyDataPage.Clean.store {p : SkyDataPage} {e : SkyDataPair} (h : p.Clean)
    (he : e.first.code ≠ 0) : (p.store e).Clean := by
  intro x hx hc
  obtain hx | rfl := mem_store hx
  · exact h x hx hc
  · exact absurd hc he

namespace Routes

def Clean (r : Routes) : Prop := r.All fun _ p => p.Clean

/-- The same pair in every slot. -/
def SameSlots (r r' : Routes) : Prop := ∀ t, r'.slot? t = r.slot? t

theorem slot?_some {r : Routes} {t : SlotRef} {e : SkyDataPair} :
    r.slot? t = some e ↔ ∃ p, (r t.bucket)[t.page]? = some p ∧ p.pairs[t.slot]? = some e := by
  simp [slot?, Option.bind_eq_some_iff]

theorem slot?_clear (r : Routes) (s t : SlotRef) :
    (r.clear s).slot? t = if t = s then (r.slot? t).map fun _ => .zero else r.slot? t := by
  obtain ⟨b, k, j⟩ := s
  obtain ⟨c, x, i⟩ := t
  simp only [slot?, getElem?_clear, SlotRef.mk.injEq]
  by_cases h : c = b ∧ x = k
  · rw [if_pos h]
    cases (r c)[x]? with
    | none => simp
    | some p =>
      simp only [Option.map_some, Option.bind_some, SkyDataPage.getElem?_clear, h.1, h.2,
        true_and]
      by_cases hj : i = j
      · simp [hj]
      · rw [if_neg hj, if_neg (Ne.symm hj)]
  · rw [if_neg h, if_neg (fun hh => h ⟨hh.1, hh.2.1⟩)]

theorem pair_eq {r : Routes} {s : SlotRef} {e : SkyDataPair} (h : r.slot? s = some e) :
    r.pair s = e := by
  simp [pair, h]

theorem pair_clear (r : Routes) (s : SlotRef) : (r.clear s).pair s = .zero := by
  simp only [pair, slot?_clear, if_pos]
  cases r.slot? s <;> rfl

theorem SameSlots.pair {r r' : Routes} (h : r.SameSlots r') (s : SlotRef) :
    r'.pair s = r.pair s := by
  simp only [Routes.pair, h s]

theorem Clean.slot {r : Routes} (h : r.Clean) {t : SlotRef} {e : SkyDataPair}
    (ht : r.slot? t = some e) (he : e.first.code = 0) : e = .zero := by
  obtain ⟨p, hp, hj⟩ := slot?_some.mp ht
  exact h _ p (List.mem_of_getElem? hp) e (Vector.mem_iff_getElem?.mpr ⟨_, hj⟩) he

theorem All.slot {R : Nat → SkyDataPair → Prop} {r : Routes} (h : r.All (Entries R)) {t : SlotRef}
    {e : SkyDataPair} (ht : r.slot? t = some e) (he : e.first.code ≠ 0) : R t.bucket e := by
  obtain ⟨p, hp, hj⟩ := slot?_some.mp ht
  exact h _ p (List.mem_of_getElem? hp) e (Vector.mem_iff_getElem?.mpr ⟨_, hj⟩) he

theorem Clean.clear {r : Routes} (h : r.Clean) {b k j : Nat} {p : SkyDataPage}
    (hk : (r b)[k]? = some p) : (r.clear ⟨b, k, j⟩).Clean :=
  clear_all h hk .clear

theorem Clean.insert {r : Routes} (h : r.Clean) {pair : SkyDataPair} (h1 : pair.first.code ≠ 0)
    (h2 : pair.second.code ≠ 0) : (insertRouteSky r pair).Clean := by
  have hhalf : (insertHalf r pair).Clean :=
    insertHalf_all h .empty fun p hp _ => hp.store h1
  exact insertHalf_all hhalf .empty fun p hp _ => hp.store h2

/-- Clearing a free slot changes no slot. -/
theorem Clean.clear_free {r : Routes} (h : r.Clean) {s : SlotRef} {e : SkyDataPair}
    (hs : r.slot? s = some e) (he : e.first.code = 0) : r.SameSlots (r.clear s) := by
  intro t
  rw [slot?_clear]
  split
  · rename_i ht
    subst ht
    rw [hs, h.slot hs he]
    rfl
  · rfl

end Routes

/-! ## One loop -/

section Loop

variable {side : SkyDataPair → SkyData} {pair : SlotRef} {b : Nat} {r : Routes}

/-- The first page with `used` above 0, or the end of the chain. -/
def firstUsed (ps : List SkyDataPage) : Nat := ps.findIdx fun p => decide (p.used > 0)

theorem removeLoop_stopped (n k : Nat) {i : Nat} (hi : skyDataPairSize ≤ i) :
    removeLoop side pair b n k i r = r := by
  induction n generalizing k with
  | zero => rfl
  | succ n ih =>
    simp only [removeLoop]
    split
    · rfl
    · rename_i page _
      have hj : page.seek (fun s => sameKey s.first (side (r.pair pair))) i = i := by
        simp only [SkyDataPage.seek, Nat.sub_eq_zero_of_le hi]
        rfl
      rw [hj, if_neg (Nat.not_lt.mpr hi)]
      simp only [ih, ite_self]

theorem removeLoop_end (n i : Nat) {k : Nat} (hk : (r b).length ≤ k) :
    removeLoop side pair b n k i r = r := by
  cases n with
  | zero => rfl
  | succ n => simp [removeLoop, List.getElem?_eq_none hk]

theorem removeLoop_skip {n k m : Nat} (i : Nat)
    (h : ∀ x p, k ≤ x → x < k + m → (r b)[x]? = some p → p.used = 0)
    (hlen : k + m ≤ (r b).length) :
    removeLoop side pair b (n + m) k i r = removeLoop side pair b n (k + m) i r := by
  induction m generalizing k with
  | zero => rfl
  | succ m ih =>
    obtain ⟨p, hk⟩ : ∃ p, (r b)[k]? = some p := ⟨_, List.getElem?_eq_getElem (by omega)⟩
    have hu := h k p (Nat.le_refl k) (by omega) hk
    rw [← Nat.add_assoc]
    simp only [removeLoop, hk, hu, Nat.lt_irrefl, gt_iff_lt, if_false]
    rw [ih (fun x p hx hx' => h x p (by omega) (by omega)) (by omega)]
    congr 1
    omega

/-- The loop goes on at the next page with entries. -/
theorem removeLoop_firstUsed (k i : Nat) :
    removeLoop side pair b ((r b).length - k) k i r =
      removeLoop side pair b ((r b).length - (k + firstUsed ((r b).drop k)))
        (k + firstUsed ((r b).drop k)) i r := by
  have hle : firstUsed ((r b).drop k) ≤ (r b).length - k := by
    have h : firstUsed ((r b).drop k) ≤ ((r b).drop k).length := List.findIdx_le_length
    rwa [List.length_drop] at h
  by_cases hk : k ≤ (r b).length
  · have hn : (r b).length - k =
        (r b).length - (k + firstUsed ((r b).drop k)) + firstUsed ((r b).drop k) := by omega
    rw [hn]
    refine removeLoop_skip i ?_ (by omega)
    intro x p hx hx' hp
    have hbefore : x - k < firstUsed ((r b).drop k) := by omega
    have hlt := List.not_of_lt_findIdx hbefore
    obtain ⟨hlen, rfl⟩ := List.getElem?_eq_some_iff.mp hp
    have hxk : k + (x - k) = x := by omega
    simpa [hxk] using hlt
  · rw [removeLoop_end _ i (by omega), removeLoop_end _ i (by omega)]

/-- The loop starts at the first page with entries. -/
theorem removeLoop_start :
    removeLoop side pair b (r b).length 0 0 r =
      removeLoop side pair b ((r b).length - firstUsed (r b)) (firstUsed (r b)) 0 r := by
  have h : removeLoop side pair b ((r b).length - 0) 0 0 r = _ := removeLoop_firstUsed 0 0
  rwa [List.drop_zero, Nat.zero_add, Nat.sub_zero] at h

theorem removeLoop_miss {n k i : Nat} {p : SkyDataPage} (hk : (r b)[k]? = some p)
    (hu : p.used > 0)
    (hm : ¬ p.seek (fun s => sameKey s.first (side (r.pair pair))) i < skyDataPairSize) :
    removeLoop side pair b (n + 1) k i r = r := by
  simp only [removeLoop, hk, if_pos hu, if_neg hm]
  exact removeLoop_stopped n (k + 1) (Nat.le_of_not_lt hm)

theorem removeLoop_hit {n k i j : Nat} {p : SkyDataPage} (hk : (r b)[k]? = some p)
    (hu : p.used > 0) (hj : p.seek (fun s => sameKey s.first (side (r.pair pair))) i = j)
    (hm : j < skyDataPairSize) :
    removeLoop side pair b (n + 1) k i r =
      removeLoop side pair b n (k + 1) j (r.clear ⟨b, k, j⟩) := by
  subst hj
  simp only [removeLoop, hk, if_pos hu, if_pos hm]

variable (side) in
/-- A loop whose key is all zeros changes no slot. -/
theorem removeLoop_blank (hside : side .zero = .zero) (n k i : Nat) (hr : r.Clean)
    (hp : r.pair pair = .zero) :
    r.SameSlots (removeLoop side pair b n k i r) ∧ (removeLoop side pair b n k i r).Clean := by
  refine removeLoop_inv (P := fun r' => r.SameSlots r' ∧ r'.Clean) ?_ n k i ⟨fun _ => rfl, hr⟩
  intro r' k j page e ⟨hsame, hclean⟩ hk _ he hm
  have hs : r'.slot? ⟨b, k, j⟩ = some e := Routes.slot?_some.mpr ⟨page, hk, he⟩
  rw [hsame.pair, hp, hside] at hm
  refine ⟨fun t => ?_, hclean.clear hk⟩
  rw [hclean.clear_free hs (sameKey_iff.mp hm).1 t]
  exact hsame t

end Loop

/-! ## What the lookup passes over -/

theorem findInChain_first {d : SkyData} {ps : List SkyDataPage} {n k i : Nat}
    (h : findInChain d ps n = some (k, i)) :
    (∀ x p, n + x < k → ps[x]? = some p → ∀ e ∈ p.pairs, sameKey e.first d = false) ∧
    ∃ p, ps[k - n]? = some p ∧ p.seek (fun s => sameKey s.first d) 0 = i ∧ i < skyDataPairSize := by
  induction ps generalizing n with
  | nil => cases h
  | cons p ps ih =>
    simp only [findInChain] at h
    split at h
    · rename_i hi
      cases h
      exact ⟨fun x q hx => by omega, p, by simp, rfl, hi⟩
    · rename_i hi
      obtain ⟨hpass, q, hq, hseek⟩ := ih h
      obtain ⟨hle, _⟩ := findInChain_some h
      refine ⟨fun x q hx hq e he => ?_, q, ?_, hseek⟩
      · cases x with
        | zero =>
          cases hq
          obtain ⟨j, hj⟩ := Vector.mem_iff_getElem?.mp he
          exact SkyDataPage.seek_missed hi (Nat.zero_le j) hj
        | succ x => exact hpass x q (by omega) hq e he
      · have hk : k - n = k - (n + 1) + 1 := by omega
        rw [hk, List.getElem?_cons_succ]
        exact hq

/-- The page of the slot found, and where the loops of a removal see it. -/
theorem findRouteSky_first {r : Routes} {d : SkyData} {s : SlotRef}
    (h : findRouteSky r d = some s) :
    (∀ x p, x < s.page → (r s.bucket)[x]? = some p →
      ∀ e ∈ p.pairs, sameKey e.first (r.pair s).first = false) ∧
    ∃ p, (r s.bucket)[s.page]? = some p ∧ p.pairs[s.slot]? = some (r.pair s) ∧
      p.seek (fun x => sameKey x.first (r.pair s).first) 0 = s.slot ∧
      s.slot < skyDataPairSize := by
  obtain ⟨hb, p, hp, he, hm⟩ := findRouteSky_some h
  obtain ⟨⟨k, i⟩, hf, rfl⟩ := Option.map_eq_some_iff.mp h
  obtain ⟨hpass, p', hp', hseek, hi⟩ := findInChain_first hf
  rw [Nat.sub_zero] at hp'
  rw [hp] at hp'
  cases hp'
  simp only [sameKey_congr hm]
  exact ⟨fun x q hx hq => hpass x q (by omega) hq, p, hp, he, hseek, hi⟩

/-! ## The removal -/

section Removal

variable {r : Routes} {d : SkyData} {s : SlotRef}

theorem removeRouteSky_some (h : findRouteSky r d = some s) :
    removeRouteSky r d =
      let r1 := removeLoop (·.first) s (bucketOf (r.pair s).first)
        (r (bucketOf (r.pair s).first)).length 0 0 r
      removeLoop (·.second) s (bucketOf (r.pair s).second)
        (r1 (bucketOf (r.pair s).second)).length 0 0 r1 := by
  simp only [removeRouteSky, h]

theorem firstUsed_le {ps : List SkyDataPage} {k : Nat} {p : SkyDataPage} (hk : ps[k]? = some p)
    (hu : p.used > 0) : firstUsed ps ≤ k := by
  obtain ⟨hlt, rfl⟩ := List.getElem?_eq_some_iff.mp hk
  apply Nat.le_of_not_lt
  intro h
  have := List.not_of_lt_findIdx h
  simp at this
  omega

theorem firstUsed_used {ps : List SkyDataPage} {p : SkyDataPage}
    (hk : ps[firstUsed ps]? = some p) : p.used > 0 := by
  obtain ⟨hlt, rfl⟩ := List.getElem?_eq_some_iff.mp hk
  have h := List.findIdx_getElem (w := hlt)
  exact of_decide_eq_true h

/-- A page with entries before that of the slot found stops the first loop, and any other loop over
that bucket for the same key. -/
theorem removeLoop_passed {side : SkyDataPair → SkyData} (h : findRouteSky r d = some s)
    (hfirst : firstUsed (r s.bucket) < s.page)
    (hside : sameKey (side (r.pair s)) (r.pair s).first = true) :
    removeLoop side s s.bucket (r s.bucket).length 0 0 r = r := by
  obtain ⟨hpass, p, hp, _⟩ := findRouteSky_first h
  obtain ⟨hlt, _⟩ := List.getElem?_eq_some_iff.mp hp
  have hk := List.getElem?_eq_getElem (Nat.lt_trans hfirst hlt)
  obtain ⟨n, hn⟩ : ∃ n, (r s.bucket).length - firstUsed (r s.bucket) = n + 1 :=
    ⟨(r s.bucket).length - firstUsed (r s.bucket) - 1, by omega⟩
  rw [removeLoop_start, hn]
  refine removeLoop_miss hk (firstUsed_used hk) ?_
  intro hj
  obtain ⟨_, e, he, hm⟩ := SkyDataPage.seek_found hj
  rw [sameKey_congr hside] at hm
  rw [hpass _ _ hfirst hk e (Vector.mem_iff_getElem?.mpr ⟨_, he⟩)] at hm
  cases hm

/-- The first loop does nothing: the removal is the second one, over slots that match the other
half of the entry found, which stays in place. -/
theorem removeRouteSky_stuck {P : Routes → Prop} (h : findRouteSky r d = some s)
    (hplaced : s.bucket = bucketOf (r.pair s).first) (hfirst : firstUsed (r s.bucket) < s.page)
    (hP : ∀ r' k j page e, P r' → (r' (bucketOf (r.pair s).second))[k]? = some page →
      page.used > 0 → page.pairs[j]? = some e → sameKey e.first (r.pair s).second = true →
      P (r'.clear ⟨bucketOf (r.pair s).second, k, j⟩)) (hr : P r) :
    P (removeRouteSky r d) ∧ (removeRouteSky r d).slot? s = some (r.pair s) := by
  obtain ⟨_, p, hp, he, _⟩ := findRouteSky_some h
  have hs : r.slot? s = some (r.pair s) := Routes.slot?_some.mpr ⟨p, hp, he⟩
  simp only [removeRouteSky_some h, ← hplaced]
  rw [removeLoop_passed h hfirst (by simp [sameKey_iff])]
  by_cases hself : bucketOf (r.pair s).second = s.bucket ∧
      sameKey (r.pair s).second (r.pair s).first = true
  · rw [hself.1, removeLoop_passed h hfirst hself.2]
    exact ⟨hr, hs⟩
  · refine removeLoop_inv (P := fun r' => P r' ∧ r'.slot? s = some (r.pair s)) ?_ _ _ _ ⟨hr, hs⟩
    intro r' k j page e ⟨hr', hs'⟩ hk hu he' hm
    rw [Routes.pair_eq hs'] at hm
    refine ⟨hP r' k j page e hr' hk hu he' hm, ?_⟩
    rw [Routes.slot?_clear, if_neg ?_]
    · exact hs'
    · intro heq
      have hb : s.bucket = bucketOf (r.pair s).second := congrArg SlotRef.bucket heq
      have he2 : r'.slot? s = some e := by
        rw [heq]
        exact Routes.slot?_some.mpr ⟨page, hk, he'⟩
      rw [hs'] at he2
      cases he2
      exact hself ⟨hb.symm, by rw [sameKey_comm]; exact hm⟩

/-- The entry found is in the first page with entries, and is cleared. -/
theorem removeLoop_first (h : findRouteSky r d = some s)
    (hfirst : firstUsed (r s.bucket) = s.page) :
    removeLoop (·.first) s s.bucket (r s.bucket).length 0 0 r =
      removeLoop (·.first) s s.bucket ((r s.bucket).length - (s.page + 1)) (s.page + 1) s.slot
        (r.clear s) := by
  obtain ⟨_, p, hp, _, hseek, hi⟩ := findRouteSky_first h
  obtain ⟨hlt, _⟩ := List.getElem?_eq_some_iff.mp hp
  have hu : p.used > 0 := firstUsed_used (by rw [hfirst]; exact hp)
  have hn : (r s.bucket).length - s.page = (r s.bucket).length - (s.page + 1) + 1 := by omega
  rw [removeLoop_start, hfirst, hn, removeLoop_hit hp hu hseek hi]

/-- Apart from the entry found, which is cleared, no slot changes. -/
theorem removeRouteSky_cleared (hclean : r.Clean) (h : findRouteSky r d = some s)
    (hplaced : s.bucket = bucketOf (r.pair s).first)
    (hfirst : firstUsed (r s.bucket) = s.page) :
    (r.clear s).SameSlots (removeRouteSky r d) ∧ (removeRouteSky r d).Clean := by
  obtain ⟨_, p, hp, _⟩ := findRouteSky_some h
  simp only [removeRouteSky_some h, ← hplaced]
  rw [removeLoop_first h hfirst]
  obtain ⟨hsame, hclean1⟩ := removeLoop_blank (b := s.bucket) (·.first) rfl
    ((r s.bucket).length - (s.page + 1)) (s.page + 1) s.slot (hclean.clear hp)
    (Routes.pair_clear r s)
  obtain ⟨hsame2, hclean2⟩ := removeLoop_blank (·.second) rfl _ 0 0 hclean1
    ((hsame.pair s).trans (Routes.pair_clear r s))
  exact ⟨fun t => (hsame2 t).trans (hsame t), hclean2⟩

/-- What a removal that found `q` makes of the table, whatever its loops do: a slot keeps its pair,
or is cleared and matched one half of `q`. -/
structure Pruned (q : SkyDataPair) (r r' : Routes) : Prop where
  clean : r'.Clean
  slots : ∀ t, r'.slot? t = r.slot? t ∨
    r'.slot? t = some .zero ∧ ∃ e, r.slot? t = some e ∧
      (sameKey e.first q.first = true ∨ sameKey e.first q.second = true)

theorem Pruned.clear {q : SkyDataPair} {r' : Routes} {side : SkyDataPair → SkyData} {b k j : Nat}
    {page : SkyDataPage} {e : SkyDataPair} (hpr : Pruned q r r') (hs : r.slot? s = some q)
    (hside : side = SkyDataPair.first ∨ side = SkyDataPair.second)
    (hk : (r' b)[k]? = some page) (he : page.pairs[j]? = some e)
    (hm : sameKey e.first (side (r'.pair s)) = true) : Pruned q r (r'.clear ⟨b, k, j⟩) := by
  have hj : r'.slot? ⟨b, k, j⟩ = some e := Routes.slot?_some.mpr ⟨page, hk, he⟩
  refine ⟨hpr.clean.clear hk, fun t => ?_⟩
  obtain hself | ⟨hself, _⟩ := hpr.slots s
  · -- the key is still that of the entry found
    rw [Routes.pair_eq (hself.trans hs)] at hm
    rw [Routes.slot?_clear]
    split
    · rename_i ht
      subst ht
      refine .inr ⟨by rw [hj]; rfl, ?_⟩
      obtain hkeep | ⟨_, hwas⟩ := hpr.slots ⟨b, k, j⟩
      · refine ⟨e, hkeep.symm.trans hj, ?_⟩
        obtain rfl | rfl := hside
        · exact .inl hm
        · exact .inr hm
      · exact hwas
    · exact hpr.slots t
  · -- the key is all zeros, and only free slots match it
    have hzero : (side (r'.pair s)).code = 0 := by
      rw [Routes.pair_eq hself]
      obtain rfl | rfl := hside <;> rfl
    rw [hpr.clean.clear_free hj ((sameKey_iff.mp hm).1.trans hzero) t]
    exact hpr.slots t

theorem removeRouteSky_pruned (hclean : r.Clean) (h : findRouteSky r d = some s) :
    Pruned (r.pair s) r (removeRouteSky r d) := by
  obtain ⟨_, p, hp, he, _⟩ := findRouteSky_some h
  have hs : r.slot? s = some (r.pair s) := Routes.slot?_some.mpr ⟨p, hp, he⟩
  have h0 : Pruned (r.pair s) r r := ⟨hclean, fun _ => .inl rfl⟩
  simp only [removeRouteSky_some h]
  refine removeLoop_inv ?_ _ _ _ (removeLoop_inv ?_ _ _ _ h0)
  · intro r' k j page e hpr hk _ he' hm
    exact hpr.clear hs (.inr rfl) hk he' hm
  · intro r' k j page e hpr hk _ he' hm
    exact hpr.clear hs (.inl rfl) hk he' hm

end Removal

end Sky
end Xsky
