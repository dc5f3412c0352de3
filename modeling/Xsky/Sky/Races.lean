import Xsky.Kit.Answers
import Xsky.Sky.Pages

/-!
# Sky.Races

`server_pre_routing_sky` looks a key up and then copies the pair behind the pointer, and no lock
keeps the hooks of other processors from the table meanwhile. Here the two are steps of their own,
and whole inserts and removals of others come between.

`races_read_stored`: under every interleaving, what is copied is in memory, and is a pair of some
insert, one the other way round, or zeros; and it is the key's, if no other call came between.
-/

namespace Xsky
namespace Sky

open Kit

/-- A key that has been found and not copied yet. -/
structure Looking where
  key : SkyData
  pair : Nat × Nat
  /-- An insert or a removal has come since. -/
  overtaken : Bool

structure Copied where
  key : SkyData
  pair : SkyDataPair
  overtaken : Bool
deriving DecidableEq

structure Raced where
  table : PageTable
  looking : Nat → Option Looking
  copied : List Copied

def Raced.start : Raced := ⟨.start, fun _ => none, []⟩

inductive RaceStep where
  | call (c : TableCall)
  | find (cpu : Nat) (key : SkyData)
  | copy (cpu : Nat)

def raceStep (s : Raced) : RaceStep → Option Raced
  | .call c => (pagedStep s.table c).map fun m =>
      { s with
        table := m
        looking := fun cpu => (s.looking cpu).map fun l => { l with overtaken := true } }
  | .find cpu key => (s.table.findRouteSky key).map fun p =>
      { s with looking := Function.update s.looking cpu (p.map fun pair => ⟨key, pair, false⟩) }
  | .copy cpu =>
    match s.looking cpu with
    | none => some s
    | some l => (PageTable.pairAt s.table.pages l.pair).map fun e =>
        { s with
          looking := Function.update s.looking cpu none
          copied := ⟨l.key, e, l.overtaken⟩ :: s.copied }

def RaceStep.inserted : RaceStep → List SkyDataPair
  | .call (.insert pair) => [pair]
  | _ => []

/-! ## No page goes -/

theorem insertHalf_next {m m' : PageTable} {e : SkyDataPair} (h : m.insertHalf e = some m') :
    m.pages.next ≤ m'.pages.next := by
  unfold PageTable.insertHalf at h
  simp only at h
  split at h
  · cases h
  · obtain ⟨s, hs, rfl⟩ := Option.map_eq_some_iff.mp h
    exact Nat.le_of_eq (Objects.modify_next hs).symm
  · split at h
    · cases h
    · rename_i s1 hs1
      obtain ⟨s2, hs2, rfl⟩ := Option.map_eq_some_iff.mp h
      have hcreated : (m.pages.create ⟨none, .empty⟩).2.next = m.pages.next + 1 := rfl
      rw [show (PageTable.pages ⟨s2, _⟩).next = s2.next from rfl, Objects.modify_next hs2,
        Objects.modify_next hs1, hcreated]
      exact Nat.le_succ _

theorem removeLoop_next {side : SkyDataPair → SkyData} {pair : Nat × Nat} (n : Nat) :
    ∀ {i : Nat} {page : Option Nat} {s s' : Objects PageCell},
      PageTable.removeLoop side pair n i page s = some s' → s'.next = s.next := by
  induction n with
  | zero =>
    intro i page s s' h
    cases h
  | succ n ih =>
    intro i page s s' h
    cases page with
    | none =>
      cases h
      rfl
    | some p =>
      unfold PageTable.removeLoop at h
      split at h
      · cases h
      · split at h
        · split at h
          · cases h
          · simp only at h
            split at h
            · split at h
              · cases h
              · rename_i hs1
                exact (ih h).trans (Objects.modify_next hs1)
            · exact ih h
        · exact ih h

theorem removeRouteSky_next {m m' : PageTable} {d : SkyData} (h : m.removeRouteSky d = some m') :
    m.pages.next = m'.pages.next := by
  unfold PageTable.removeRouteSky at h
  split at h
  · cases h
  · cases h
    rfl
  · split at h
    · cases h
    · simp only at h
      split at h
      · cases h
      · rename_i hs1
        obtain ⟨s2, hs2, rfl⟩ := Option.map_eq_some_iff.mp h
        exact ((removeLoop_next _ hs2).trans (removeLoop_next _ hs1)).symm

theorem pagedStep_next {m m' : PageTable} {c : TableCall} (h : pagedStep m c = some m') :
    m.pages.next ≤ m'.pages.next := by
  cases c with
  | insert pair =>
    simp only [pagedStep, PageTable.insertRouteSky] at h
    split at h
    · cases h
    · rename_i hm1
      exact Nat.le_trans (insertHalf_next hm1) (insertHalf_next h)
  | remove key => exact Nat.le_of_eq (removeRouteSky_next h)

/-! ## What the slots hold -/

/-- Cleared, or of some insert. -/
def Stored (pairs : List SkyDataPair) (e : SkyDataPair) : Prop := e = .zero ∨ FromInserts pairs e

def StoredPage (pairs : List SkyDataPair) (_b : Nat) (p : SkyDataPage) : Prop :=
  ∀ e ∈ p.pairs, Stored pairs e

section

variable {pairs more : List SkyDataPair} {r : Routes}

theorem Stored.mono {e : SkyDataPair} (h : Stored pairs e) : Stored (pairs ++ more) e := by
  rcases h with h | ⟨pair, hp, hor⟩
  · exact .inl h
  · exact .inr ⟨pair, List.mem_append_left _ hp, hor⟩

theorem storedPage_empty {b : Nat} : StoredPage pairs b .empty := fun _ he =>
  .inl (SkyDataPage.mem_empty he)

theorem StoredPage.store {b : Nat} {p : SkyDataPage} {e : SkyDataPair} (h : StoredPage pairs b p)
    (he : Stored pairs e) : StoredPage pairs b (p.store e) := by
  intro x hx
  rcases SkyDataPage.mem_store hx with hx | rfl
  · exact h x hx
  · exact he

theorem StoredPage.clear {b j : Nat} {p : SkyDataPage} (h : StoredPage pairs b p) :
    StoredPage pairs b (p.clear j) := by
  intro x hx
  rcases SkyDataPage.mem_clear hx with hx | rfl
  · exact h x hx
  · exact .inl rfl

theorem routesStep_stored (hr : r.All (StoredPage pairs)) (c : TableCall) :
    (routesStep r c).All (StoredPage (pairs ++ (RaceStep.call c).inserted)) := by
  have hmono : r.All (StoredPage (pairs ++ (RaceStep.call c).inserted)) :=
    fun b p hp e he => (hr b p hp e he).mono
  cases c with
  | insert pair =>
    have hmem : pair ∈ pairs ++ [pair] := by simp
    have hhalf := insertHalf_all (e := pair) hmono storedPage_empty fun p hp _ =>
      hp.store (.inr ⟨pair, hmem, .inl rfl⟩)
    exact insertHalf_all hhalf storedPage_empty fun p hp _ =>
      hp.store (.inr ⟨pair, hmem, .inr rfl⟩)
  | remove key =>
    simp only [routesStep, removeRouteSky]
    split
    · exact hmono
    · refine removeLoop_inv ?_ _ _ _ (removeLoop_inv ?_ _ _ _ hmono) <;>
      · intro r' k j page e hr' hk _ _ _
        exact Routes.clear_all hr' hk .clear

/-- Every slot of a page that was allocated can be read. -/
theorem Refines.readable {m : PageTable} {nodes : Nat → List Nat} (h : Refines m r nodes)
    (hr : r.All (StoredPage pairs)) {p i : Nat} (hp : p < m.pages.next) (hi : i < skyDataPairSize) :
    ∃ e, PageTable.pairAt m.pages (p, i) = some e ∧ Stored pairs e := by
  obtain ⟨b, -, hmem⟩ := h.owned p hp
  obtain ⟨k, hk⟩ := List.getElem?_of_mem hmem
  obtain ⟨c, hc, -, hpage⟩ := h.cell hk
  refine ⟨c.page.pairs[i], ?_, hr b c.page (List.mem_of_getElem? hpage) _ (Vector.getElem_mem hi)⟩
  rw [PageTable.pairAt, hc, Option.bind_some, Vector.getElem?_eq_getElem hi]

end

/-! ## All interleavings -/

structure Races (s : Raced) (pairs : List SkyDataPair) : Prop where
  refines : ∃ r nodes, Refines s.table r nodes ∧ r.All (StoredPage pairs)
  looking : ∀ cpu l, s.looking cpu = some l → l.pair.1 < s.table.pages.next ∧
    l.pair.2 < skyDataPairSize ∧ (l.overtaken = false →
      ∃ e, PageTable.pairAt s.table.pages l.pair = some e ∧ sameKey e.first l.key = true)
  copied : ∀ c ∈ s.copied, Stored pairs c.pair ∧
    (c.overtaken = false → sameKey c.pair.first c.key = true)

theorem races_start : Races .start [] where
  refines := ⟨.empty, fun _ => [], refines_start, Routes.empty_all⟩
  looking cpu l hl := by cases hl
  copied c hc := by cases hc

section

variable {s : Raced} {pairs : List SkyDataPair}

theorem Races.call (h : Races s pairs) (c : TableCall) :
    ∃ s', raceStep s (.call c) = some s' ∧ Races s' (pairs ++ (RaceStep.call c).inserted) := by
  obtain ⟨r, nodes, hrefines, hstored⟩ := h.refines
  obtain ⟨m, nodes', hm, hrefines'⟩ := pagedStep_refines hrefines c
  have hnext := pagedStep_next hm
  simp only [raceStep, hm, Option.map_some]
  refine ⟨_, rfl, ⟨_, _, hrefines', routesStep_stored hstored c⟩, fun cpu l hl => ?_,
    fun d hd => ⟨(h.copied d hd).1.mono, (h.copied d hd).2⟩⟩
  obtain ⟨l0, hl0, rfl⟩ := Option.map_eq_some_iff.mp hl
  obtain ⟨hpage, hslot, -⟩ := h.looking cpu l0 hl0
  refine ⟨Nat.lt_of_lt_of_le hpage hnext, hslot, fun hnot => ?_⟩
  cases hnot

/-- What a lookup finds is a slot of a page that was allocated, with the key. -/
theorem Refines.found {m : PageTable} {r : Routes} {nodes : Nat → List Nat} (h : Refines m r nodes)
    (key : SkyData) : ∃ found, m.findRouteSky key = some found ∧
      ∀ pair, found = some pair → pair.1 < m.pages.next ∧ pair.2 < skyDataPairSize ∧
        ∃ e, PageTable.pairAt m.pages pair = some e ∧ sameKey e.first key = true := by
  rcases findRouteSky_refines h key with ⟨k, p, i, hlist, hp, hfind⟩ | ⟨-, hfind⟩
  · refine ⟨_, hfind, fun pair hpair => ?_⟩
    cases hpair
    obtain ⟨-, page, hpage, he, hsame⟩ := findRouteSky_some hlist
    have hlive := (h.chain (bucketOf key)).live (List.mem_of_getElem? hp)
    refine ⟨?_, SkyDataPage.getElem?_lt he, _, ?_, hsame⟩
    · apply Nat.lt_of_not_le
      intro hle
      unfold Objects.Live at hlive
      rw [m.pages.fresh p hle] at hlive
      cases hlive
    · rw [h.pairAt hp, Routes.slot?, hpage, Option.bind_some, he]
  · exact ⟨_, hfind, fun pair hpair => by cases hpair⟩

theorem Races.find (h : Races s pairs) (cpu : Nat) (key : SkyData) :
    ∃ s', raceStep s (.find cpu key) = some s' ∧ Races s' pairs := by
  obtain ⟨r, nodes, hrefines, hstored⟩ := h.refines
  obtain ⟨found, hfind, hfound⟩ := hrefines.found key
  simp only [raceStep, hfind, Option.map_some]
  refine ⟨_, rfl, h.refines, fun cpu' l hl => ?_, h.copied⟩
  by_cases hcpu : cpu' = cpu
  · subst hcpu
    simp only [Function.update_self] at hl
    obtain ⟨pair, hpair, rfl⟩ := Option.map_eq_some_iff.mp hl
    obtain ⟨hpage, hslot, hkey⟩ := hfound pair hpair
    exact ⟨hpage, hslot, fun _ => hkey⟩
  · simp only [Function.update_of_ne hcpu] at hl
    exact h.looking cpu' l hl

theorem Races.copy (h : Races s pairs) (cpu : Nat) :
    ∃ s', raceStep s (.copy cpu) = some s' ∧ Races s' pairs := by
  obtain ⟨r, nodes, hrefines, hstored⟩ := h.refines
  simp only [raceStep]
  cases hl : s.looking cpu with
  | none => exact ⟨s, rfl, h⟩
  | some l =>
    obtain ⟨hpage, hslot, hkey⟩ := h.looking cpu l hl
    obtain ⟨e, he, hfrom⟩ := hrefines.readable hstored hpage hslot
    simp only [he, Option.map_some]
    refine ⟨_, rfl, h.refines, fun cpu' l' hl' => ?_, fun c hc => ?_⟩
    · by_cases hcpu : cpu' = cpu
      · subst hcpu
        simp only [Function.update_self] at hl'
        cases hl'
      · simp only [Function.update_of_ne hcpu] at hl'
        exact h.looking cpu' l' hl'
    · rcases List.mem_cons.mp hc with rfl | hc
      · refine ⟨hfrom, fun hnot => ?_⟩
        obtain ⟨e', he', hsame⟩ := hkey hnot
        rw [he] at he'
        cases he'
        exact hsame
      · exact h.copied c hc

theorem Races.step (h : Races s pairs) (i : RaceStep) :
    ∃ s', raceStep s i = some s' ∧ Races s' (pairs ++ i.inserted) := by
  cases i with
  | call c => exact h.call c
  | find cpu key =>
    have hnone : pairs ++ (RaceStep.find cpu key).inserted = pairs := List.append_nil pairs
    rw [hnone]
    exact h.find cpu key
  | copy cpu =>
    have hnone : pairs ++ (RaceStep.copy cpu).inserted = pairs := List.append_nil pairs
    rw [hnone]
    exact h.copy cpu

theorem Races.run (h : Races s pairs) (is : List RaceStep) :
    ∃ s', Kit.run raceStep s is = some s' ∧ Races s' (pairs ++ is.flatMap RaceStep.inserted) := by
  induction is generalizing s pairs with
  | nil => exact ⟨s, rfl, by simpa using h⟩
  | cons i is ih =>
    obtain ⟨s1, hs1, h1⟩ := h.step i
    obtain ⟨s', hs', h'⟩ := ih h1
    refine ⟨s', by rw [run_cons hs1]; exact hs', ?_⟩
    rw [List.flatMap_cons, ← List.append_assoc]
    exact h'

end

/-- However lookups, copies, inserts and removals interleave, no processor reads a page that is not
there, and what it copies is zeros or a pair that was inserted, one way round or the other. With no
insert or removal in between, it is a pair of the key it looked up. -/
theorem races_read_stored (is : List RaceStep) :
    ∃ s, run raceStep .start is = some s ∧
      ∀ c ∈ s.copied, (c.pair = .zero ∨ FromInserts (is.flatMap RaceStep.inserted) c.pair) ∧
        (c.overtaken = false → sameKey c.pair.first c.key = true) := by
  obtain ⟨s, hs, h⟩ := races_start.run is
  exact ⟨s, hs, h.copied⟩

/-- An endpoint at port `p` of 10.0.0.1. -/
def raceEndpoint (p : BitVec 16) : SkyData := ⟨254, 8, p, 0x0100000A, 0⟩

/-- A copy that was overtaken may be of another client's pair: those of ports 1 and 177 share a
bucket, and the second takes the slot the first leaves. -/
example : (run raceStep .start
    [.call (.insert ⟨raceEndpoint 1, raceEndpoint 7⟩), .find 0 (raceEndpoint 1),
      .call (.remove (raceEndpoint 1)), .call (.insert ⟨raceEndpoint 177, raceEndpoint 8⟩),
      .copy 0]).map (·.copied) =
    some [⟨raceEndpoint 1, ⟨raceEndpoint 177, raceEndpoint 8⟩, true⟩] := by decide +kernel

end Sky
end Xsky
