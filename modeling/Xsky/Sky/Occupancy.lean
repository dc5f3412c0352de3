import Xsky.Kit.Runs
import Xsky.Sky.Removal

/-!
# Sky.Occupancy

`used` against the entries of a page. A removal counts a free slot out of a page whenever one of its
loops goes on with a cleared key and meets a free slot, so the counts are right in every state of a
run if and only if no removal of it does: `accounted_iff`.

* `Sound`   — the invariant: `used` is the number of entries, free slots are all zeros, entries are
  in the bucket of their key and have a code on both sides.
* `Short`   — some page has more entries than it counts; no cleared loop mends that.
* `Orderly` — the condition on a removal, a test of the table before it.
-/

namespace Xsky
namespace Sky

open Kit

namespace SkyDataPage

def occupied (p : SkyDataPage) : Nat := p.pairs.countP fun e => decide (e.first.code ≠ 0)

/-- `used` is right, and a page with `used` below the size has room for an entry and keeps it. -/
def Accounted (p : SkyDataPage) : Prop :=
  p.used = p.occupied ∧
    (p.used < skyDataPairSize →
      (∃ e ∈ p.pairs, e.first.code = 0) ∧ ∀ e, e ∈ (p.store e).pairs)

theorem occupied_empty : empty.occupied = 0 := by
  rw [occupied, empty, Vector.countP_replicate, if_neg (by decide)]

theorem exists_free {p : SkyDataPage} (h : p.occupied < skyDataPairSize) :
    ∃ e ∈ p.pairs, e.first.code = 0 := by
  apply Classical.byContradiction
  intro hno
  have hall : p.occupied = skyDataPairSize := by
    rw [occupied, Vector.countP_eq_size]
    intro e he
    exact decide_eq_true fun hc => hno ⟨e, he, hc⟩
  omega

/-- The loop of `insertRouteSky` finds a free slot if there is one. -/
theorem seek_free {p : SkyDataPage} (h : ∃ e ∈ p.pairs, e.first.code = 0) :
    p.seek (fun s => s.first.code = 0) 0 < skyDataPairSize := by
  obtain ⟨e, he, hc⟩ := h
  obtain ⟨j, hj⟩ := Vector.mem_iff_getElem?.mp he
  apply Classical.byContradiction
  intro hmiss
  have := seek_missed hmiss (Nat.zero_le j) hj
  simp [hc] at this

theorem occupied_set {p : SkyDataPage} {j : Nat} {old : SkyDataPair} (e : SkyDataPair) (n : Nat)
    (hj : p.pairs[j]? = some old) :
    (⟨n, p.pairs.setIfInBounds j e⟩ : SkyDataPage).occupied +
        (if old.first.code ≠ 0 then 1 else 0) =
      p.occupied + (if e.first.code ≠ 0 then 1 else 0) := by
  obtain ⟨hlt, rfl⟩ := Vector.getElem?_eq_some_iff.mp hj
  have hset : p.pairs.setIfInBounds j e = p.pairs.set j e hlt := by
    apply Vector.ext
    intro i hi
    simp [Vector.getElem_setIfInBounds, Vector.getElem_set]
  have hpos : p.pairs[j].first.code ≠ 0 → 0 < p.occupied := by
    intro hc
    exact Vector.countP_pos_iff.mpr ⟨_, Vector.getElem_mem hlt, decide_eq_true hc⟩
  simp only [occupied, hset, Vector.countP_set, decide_eq_true_eq]
  by_cases hc : p.pairs[j].first.code = 0
  · simp only [hc, ne_eq, not_true, if_false]
    omega
  · have := hpos hc
    simp only [occupied] at this
    rw [if_pos hc]
    omega

theorem occupied_store {p : SkyDataPage} {e : SkyDataPair}
    (hfree : ∃ x ∈ p.pairs, x.first.code = 0) (he : e.first.code ≠ 0) :
    (p.store e).used = p.used + 1 ∧ (p.store e).occupied = p.occupied + 1 := by
  have hseek := seek_free hfree
  obtain ⟨_, old, hold, hc⟩ := seek_found hseek
  have hset := occupied_set e (p.used + 1) hold
  rw [if_neg (not_not_intro (of_decide_eq_true hc)), if_pos he] at hset
  simp only [store, if_pos hseek]
  exact ⟨trivial, hset⟩

theorem mem_store_self {p : SkyDataPage} {e : SkyDataPair}
    (hfree : ∃ x ∈ p.pairs, x.first.code = 0) : e ∈ (p.store e).pairs := by
  have hseek := seek_free hfree
  simp only [store, if_pos hseek]
  exact Vector.mem_iff_getElem?.mpr ⟨_, Vector.getElem?_setIfInBounds_self_of_lt hseek⟩

theorem occupied_clear {p : SkyDataPage} {j : Nat} {e : SkyDataPair}
    (hj : p.pairs[j]? = some e) :
    (p.clear j).occupied + (if e.first.code ≠ 0 then 1 else 0) = p.occupied := by
  have h := occupied_set .zero (p.used - 1) hj
  rw [if_neg (c := SkyDataPair.zero.first.code ≠ 0) (not_not_intro rfl)] at h
  exact h

/-- An entry in the bucket of its key, with a code on the other side too. -/
def Paired (b : Nat) (e : SkyDataPair) : Prop := b = bucketOf e.first ∧ e.second.code ≠ 0

/-- The invariant of a page of bucket `b`. -/
structure Sound (b : Nat) (p : SkyDataPage) : Prop where
  exact_used : p.used = p.occupied
  clean : p.Clean
  entries : Entries Paired b p

theorem Sound.accounted {b : Nat} {p : SkyDataPage} (h : Sound b p) : p.Accounted := by
  refine ⟨h.exact_used, fun hu => ?_⟩
  have hfree := exists_free (h.exact_used ▸ hu)
  exact ⟨hfree, fun _ => mem_store_self hfree⟩

theorem Sound.empty (b : Nat) : Sound b .empty :=
  ⟨occupied_empty.symm, Clean.empty, Entries.empty⟩

theorem Sound.store {p : SkyDataPage} {e : SkyDataPair} (h : Sound (bucketOf e.first) p)
    (hu : p.used < skyDataPairSize) (h1 : e.first.code ≠ 0) (h2 : e.second.code ≠ 0) :
    Sound (bucketOf e.first) (p.store e) := by
  obtain ⟨hused, hocc⟩ := occupied_store (exists_free (h.exact_used ▸ hu)) h1
  exact ⟨by rw [hused, hocc, h.exact_used], h.clean.store h1, h.entries.store ⟨rfl, h2⟩⟩

/-- Clearing an entry counts it out. -/
theorem Sound.clear {b j : Nat} {p : SkyDataPage} {e : SkyDataPair} (h : Sound b p)
    (hj : p.pairs[j]? = some e) (he : e.first.code ≠ 0) : Sound b (p.clear j) := by
  have hocc := occupied_clear hj
  rw [if_pos he] at hocc
  refine ⟨?_, h.clean.clear, h.entries.clear⟩
  show p.used - 1 = (p.clear j).occupied
  rw [h.exact_used]
  omega

end SkyDataPage

namespace Routes

def Sound (r : Routes) : Prop := r.All SkyDataPage.Sound

theorem Sound.clean {r : Routes} (h : r.Sound) : r.Clean := fun b p hp => (h b p hp).clean

theorem Sound.slot {r : Routes} (h : r.Sound) {t : SlotRef} {e : SkyDataPair}
    (ht : r.slot? t = some e) (hc : e.first.code ≠ 0) :
    t.bucket = bucketOf e.first ∧ e.second.code ≠ 0 :=
  All.slot (fun b p hp => (h b p hp).entries) ht hc

theorem Sound.le {r : Routes} (h : r.Sound) :
    r.All fun _ (p : SkyDataPage) => p.used ≤ p.occupied :=
  fun b p hp => Nat.le_of_eq (h b p hp).exact_used

theorem length_clear (r : Routes) (s : SlotRef) (b : Nat) :
    (r.clear s b).length = (r b).length := by
  by_cases hb : b = s.bucket
  · subst hb
    rw [clear, setChain_self, List.length_modify]
  · rw [clear, setChain_other _ _ hb]

theorem Sound.clear {r : Routes} (h : r.Sound) {b k j : Nat} {page : SkyDataPage}
    {e : SkyDataPair} (hk : (r b)[k]? = some page) (he : page.pairs[j]? = some e)
    (hc : e.first.code ≠ 0) : (r.clear ⟨b, k, j⟩).Sound :=
  clear_all h hk fun hp => hp.clear he hc

/-! ## Counting free slots out -/

/-- No page counts more entries than it has, and some page counts fewer. -/
structure Short (r : Routes) : Prop where
  clean : r.Clean
  le : r.All fun _ (p : SkyDataPage) => p.used ≤ p.occupied
  short : ∃ b k : Nat, ∃ p : SkyDataPage, (r b)[k]? = some p ∧ p.used < p.occupied

/-- Counting a free slot out of a page that counted right leaves it short. -/
theorem Short.of_clear {r : Routes} (hclean : r.Clean)
    (hle : r.All fun _ (p : SkyDataPage) => p.used ≤ p.occupied) {b k j : Nat}
    {page : SkyDataPage} {e : SkyDataPair} (hk : (r b)[k]? = some page) (hu : page.used > 0)
    (he : page.pairs[j]? = some e) (hc : e.first.code = 0) : (r.clear ⟨b, k, j⟩).Short := by
  have hocc := SkyDataPage.occupied_clear he
  rw [if_neg (fun h => h hc), Nat.add_zero] at hocc
  have hused : (page.clear j).used = page.used - 1 := rfl
  have hpage := hle b page (List.mem_of_getElem? hk)
  refine ⟨hclean.clear hk, clear_all hle hk fun h => ?_, b, k, page.clear j, ?_, ?_⟩
  · rw [hocc, hused]
    omega
  · rw [getElem?_clear, if_pos ⟨rfl, rfl⟩, hk]
    rfl
  · rw [hocc, hused]
    omega

/-- A loop whose key is all zeros leaves a short table short. -/
theorem Short.loop {r : Routes} {side : SkyDataPair → SkyData} {pair : SlotRef}
    (hside : side .zero = .zero) (h : r.Short) (hp : r.pair pair = .zero) (b n k i : Nat) :
    (removeLoop side pair b n k i r).Short := by
  refine (removeLoop_inv (P := fun r' => r'.Short ∧ r'.pair pair = .zero) ?_ n k i ⟨h, hp⟩).1
  intro r' k j page e ⟨hshort, hzero⟩ hk hu he hm
  rw [hzero, hside] at hm
  have hc : e.first.code = 0 := (sameKey_iff.mp hm).1
  refine ⟨.of_clear hshort.clean hshort.le hk hu he hc, ?_⟩
  rw [(hshort.clean.clear_free (slot?_some.mpr ⟨page, hk, he⟩) hc).pair]
  exact hzero

theorem Short.not_accounted {r : Routes} (h : r.Short) : ¬ r.All fun _ p => p.Accounted := by
  intro hacc
  obtain ⟨b, k, p, hk, hlt⟩ := h.short
  have := (hacc b p (List.mem_of_getElem? hk)).1
  omega

end Routes

/-- The first page with entries has a free slot, at index `i` or after it. -/
def meetsFree (ps : List SkyDataPage) (i : Nat) : Bool :=
  (ps[firstUsed ps]?).any fun p =>
    decide (p.seek (fun s => sameKey s.first .zero) i < skyDataPairSize)

section Blank

variable {r : Routes} {pair : SlotRef} (side : SkyDataPair → SkyData)

/-- A loop whose key is all zeros stops at the next page with entries, or counts a free slot out of
it. -/
theorem removeLoop_blank_cases (hside : side .zero = .zero) (hp : r.pair pair = .zero)
    (hsound : r.Sound) (b k i : Nat) :
    (meetsFree ((r b).drop k) i = false ∧
      removeLoop side pair b ((r b).length - k) k i r = r) ∨
    (meetsFree ((r b).drop k) i = true ∧
      (removeLoop side pair b ((r b).length - k) k i r).Short) := by
  rw [removeLoop_firstUsed]
  simp only [meetsFree, List.getElem?_drop]
  cases hk : (r b)[k + firstUsed ((r b).drop k)]? with
  | none => exact .inl ⟨rfl, removeLoop_end _ i (List.getElem?_eq_none_iff.mp hk)⟩
  | some p =>
    have hfirst : ((r b).drop k)[firstUsed ((r b).drop k)]? = some p := by
      rw [List.getElem?_drop, hk]
    have hu : p.used > 0 := firstUsed_used hfirst
    obtain ⟨hlt, _⟩ := List.getElem?_eq_some_iff.mp hk
    obtain ⟨n, hn⟩ : ∃ n, (r b).length - (k + firstUsed ((r b).drop k)) = n + 1 :=
      ⟨(r b).length - (k + firstUsed ((r b).drop k)) - 1, by omega⟩
    have hkey : side (r.pair pair) = .zero := by rw [hp, hside]
    rw [hn, Option.any_some]
    by_cases hj : p.seek (fun s => sameKey s.first .zero) i < skyDataPairSize
    · refine .inr ⟨decide_eq_true hj, ?_⟩
      obtain ⟨_, e, he, hm⟩ := SkyDataPage.seek_found hj
      have hc : e.first.code = 0 := (sameKey_iff.mp hm).1
      have hseek : p.seek (fun s => sameKey s.first (side (r.pair pair))) i =
          p.seek (fun s => sameKey s.first .zero) i := by rw [hkey]
      rw [removeLoop_hit hk hu hseek hj]
      refine (Routes.Short.of_clear hsound.clean hsound.le hk hu he hc).loop hside ?_ _ _ _ _
      rw [(hsound.clean.clear_free (Routes.slot?_some.mpr ⟨p, hk, he⟩) hc).pair]
      exact hp
    · exact .inl ⟨decide_eq_false hj, removeLoop_miss hk hu (by rw [hkey]; exact hj)⟩

/-- Both loops, when the key is all zeros. -/
theorem removeLoops_blank_cases (hp : r.pair pair = .zero) (hsound : r.Sound) (b k i c : Nat) :
    let r1 := removeLoop (·.first) pair b ((r b).length - k) k i r
    let r2 := removeLoop (·.second) pair c (r1 c).length 0 0 r1
    (meetsFree ((r b).drop k) i = false ∧ meetsFree (r c) 0 = false ∧ r2 = r) ∨
    (¬ (meetsFree ((r b).drop k) i = false ∧ meetsFree (r c) 0 = false) ∧ r2.Short) := by
  intro r1 r2
  obtain ⟨h1, hr1⟩ | ⟨h1, hr1⟩ :=
    removeLoop_blank_cases (·.first) rfl hp hsound b k i
  · have hr1 : r1 = r := hr1
    have hr2 : r2 = removeLoop (·.second) pair c (r c).length 0 0 r := by
      simp only [r2, hr1]
    rw [hr2]
    obtain ⟨h2, h⟩ | ⟨h2, h⟩ :=
      removeLoop_blank_cases (·.second) rfl hp hsound c 0 0
    · exact .inl ⟨h1, h2, h⟩
    · refine .inr ⟨fun hno => ?_, h⟩
      rw [List.drop_zero, hno.2] at h2
      cases h2
  · refine .inr ⟨fun hno => ?_, ?_⟩
    · rw [hno.1] at h1
      cases h1
    · refine hr1.loop rfl ?_ c _ 0 0
      rw [(removeLoop_blank _ rfl _ k i hsound.clean hp).1.pair]
      exact hp

end Blank

/-! ## The steps -/

/-- A removal meets no free slot with its key cleared: it finds nothing; or a free slot, while the
first page with entries in the bucket of the key that is all zeros is full; or an entry behind
another page with entries; or, with that entry cleared, neither the next page with entries has a
free slot from its index on, nor the first one in the bucket of its other half any. -/
def Orderly (r : Routes) : RouteOp → Prop
  | .insert _ _ _ => True
  | .remove key =>
    match findRouteSky r key with
    | none => True
    | some s =>
      let e := r.pair s
      let r' := r.clear s
      if e.first.code = 0 then meetsFree (r (bucketOf .zero)) 0 = false
      else firstUsed (r s.bucket) < s.page ∨
        meetsFree ((r' s.bucket).drop (s.page + 1)) s.slot = false ∧
          meetsFree (r' (bucketOf e.second)) 0 = false

theorem insertHalf_sound {r : Routes} {e : SkyDataPair} (hr : r.Sound) (h1 : e.first.code ≠ 0)
    (h2 : e.second.code ≠ 0) : (insertHalf r e).Sound :=
  insertHalf_all hr (.empty _) fun _ hp hu => hp.store hu h1 h2

theorem insertRouteSky_sound {r : Routes} {pair : SkyDataPair} (hr : r.Sound)
    (h1 : pair.first.code ≠ 0) (h2 : pair.second.code ≠ 0) : (insertRouteSky r pair).Sound :=
  insertHalf_sound (insertHalf_sound hr h1 h2) h2 h1

/-- The loop to the page of an entry stops at it or before it. -/
theorem Routes.Sound.firstUsed_eq {r : Routes} (hr : r.Sound) {s : SlotRef}
    (hs : r.slot? s = some (r.pair s)) (hc : (r.pair s).first.code ≠ 0)
    (hfirst : ¬ firstUsed (r s.bucket) < s.page) : firstUsed (r s.bucket) = s.page := by
  obtain ⟨p, hp, he⟩ := Routes.slot?_some.mp hs
  have hused : p.used > 0 := by
    rw [(hr _ p (List.mem_of_getElem? hp)).exact_used]
    exact Vector.countP_pos_iff.mpr
      ⟨_, Vector.mem_iff_getElem?.mpr ⟨_, he⟩, decide_eq_true hc⟩
  exact Nat.le_antisymm (firstUsed_le hp hused) (Nat.le_of_not_lt hfirst)

theorem removeRouteSky_cases {r : Routes} (hr : r.Sound) (key : SkyData) :
    (Orderly r (.remove key) ∧ (removeRouteSky r key).Sound) ∨
    (¬ Orderly r (.remove key) ∧ (removeRouteSky r key).Short) := by
  simp only [Orderly]
  cases hf : findRouteSky r key with
  | none =>
    refine .inl ⟨trivial, ?_⟩
    simpa only [removeRouteSky, hf] using hr
  | some s =>
    obtain ⟨_, p, hp, he, _⟩ := findRouteSky_some hf
    have hs : r.slot? s = some (r.pair s) := Routes.slot?_some.mpr ⟨p, hp, he⟩
    simp only
    split
    · rename_i hc
      -- the key found is that of a free slot
      have hzero : r.pair s = .zero := hr.clean.slot hs hc
      have h := removeLoops_blank_cases hzero hr (bucketOf .zero) 0 0 (bucketOf .zero)
      simp only [removeRouteSky_some hf, hzero]
      obtain ⟨h1, _, hr2⟩ | ⟨h1, hr2⟩ := h
      · refine .inl ⟨h1, ?_⟩
        rw [← hr2] at hr
        exact hr
      · exact .inr ⟨fun hno => h1 ⟨hno, hno⟩, hr2⟩
    · rename_i hc
      obtain ⟨hb, hc2⟩ := hr.slot hs hc
      by_cases hfirst : firstUsed (r s.bucket) < s.page
      · refine .inl ⟨.inl hfirst, ?_⟩
        refine (removeRouteSky_stuck hf hb hfirst ?_ hr).1
        intro r' k j page e hr' hk _ he' hm
        exact hr'.clear hk he' (sameKey_code hm hc2)
      · have hpos := hr.firstUsed_eq hs hc hfirst
        have h := removeLoops_blank_cases (Routes.pair_clear r s) (hr.clear hp he hc) s.bucket
          (s.page + 1) s.slot (bucketOf (r.pair s).second)
        simp only [removeRouteSky_some hf, ← hb]
        rw [removeLoop_first hf hpos, ← Routes.length_clear r s s.bucket]
        obtain ⟨h1, h2, hr2⟩ | ⟨h1, hr2⟩ := h
        · refine .inl ⟨.inr ⟨h1, h2⟩, ?_⟩
          rw [hr2]
          exact hr.clear hp he hc
        · exact .inr ⟨fun hno => hno.elim hfirst h1, hr2⟩

def tableStep (r : Routes) (op : RouteOp) : Option Routes := some (routeStep r op)

/-- Every page counts its entries right, and keeps what it is picked for, in every state of a run
if and only if no removal of the run goes on with a cleared key and meets a free slot. -/
theorem accounted_iff (ops : List RouteOp) :
    Always tableStep (fun r => r.All fun _ p => p.Accounted) .empty ops ↔
      Along tableStep Orderly .empty ops := by
  refine always_iff_along (J := Routes.Sound) ?_ ?_ ?_ Routes.empty_all
  · exact fun r hr b p hp => (hr b p hp).accounted
  · intro r op hr hop
    refine ⟨_, rfl, ?_⟩
    cases op with
    | insert pair h1 h2 => exact insertRouteSky_sound hr h1 h2
    | remove key =>
      obtain ⟨_, h⟩ | ⟨hno, _⟩ := removeRouteSky_cases hr key
      · exact h
      · exact absurd hop hno
  · intro r op r' hr hop hacc
    cases hop
    cases op with
    | insert pair h1 h2 => trivial
    | remove key =>
      obtain ⟨h, _⟩ | ⟨_, h⟩ := removeRouteSky_cases hr key
      · exact h
      · exact absurd hacc h.not_accounted

/-- One pair inserted and removed again: the second loop, with the key cleared, counts a free slot
out of the page that still holds the other half. -/
theorem removal_miscounts :
    let client : SkyData := ⟨253, 8, 0x901f, 0x0a00000a, 0⟩
    let site : SkyData := ⟨253, 8, 0xbb01, 0x22d8b85d, 0⟩
    ¬ Always tableStep (fun r => r.All fun _ p => p.Accounted) .empty
      [.insert ⟨client, site⟩ (by decide) (by decide), .remove client] := by
  intro client site h
  obtain ⟨r, hr, hacc⟩ := h.run
  cases hr
  have hpage : ((removeRouteSky (insertRouteSky .empty ⟨client, site⟩) client)
      (bucketOf site))[0]?.any (fun p => p.used ≠ p.occupied) = true := by decide +kernel
  obtain ⟨p, hp, hne⟩ := (Option.any_eq_true _ _).mp hpage
  exact of_decide_eq_true hne (hacc _ p (List.mem_of_getElem? hp)).1

end Sky
end Xsky
