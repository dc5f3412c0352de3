import Mathlib.Data.List.Nodup
import Mathlib.Data.List.Perm.Subperm
import Xsky.Kit.Objects

/-!
# Kit.Chain

Singly linked chains of objects: `next` reads the link of an object, `none` is the null pointer.

* `Chain`   — the objects on the way from a head to the null pointer, in order.
* `walk`    — the loop along a chain that stops at the first object with an answer.
* `freeAll` — the loop that frees a chain from its head on.

No object comes twice in a chain (`Chain.nodup`), so one is no longer than there are handles.
`chain_push` and `Chain.congr` say which changes keep a chain, `walk_chain` and `freeAll_chain` what
the loops do on one. A loop without the fuel for its chain ends in `none`, as a fault does.
-/

namespace Kit

variable {α β : Type} {next : α → Option Nat} {s s' : Objects α} {head : Option Nat}
  {p : Nat} {ps : List Nat}

def Chain (next : α → Option Nat) (s : Objects α) (head : Option Nat) (ps : List Nat) : Prop :=
  head = ps[0]? ∧ ∀ k p, ps[k]? = some p → ∃ a, s.get p = some a ∧ next a = ps[k + 1]?

theorem chain_nil : Chain next s none [] := ⟨rfl, fun k p h => by cases h⟩

theorem Chain.tail (h : Chain next s head (p :: ps)) :
    ∃ a, s.get p = some a ∧ Chain next s (next a) ps := by
  obtain ⟨a, ha, hnext⟩ := h.2 0 p rfl
  refine ⟨a, ha, by simpa using hnext, fun k q hq => ?_⟩
  exact h.2 (k + 1) q (by simpa using hq)

theorem chain_push {a : α} (h : Chain next s head ps) (ha : s.get p = some a)
    (hnext : next a = head) : Chain next s (some p) (p :: ps) := by
  refine ⟨rfl, fun k q hq => ?_⟩
  cases k with
  | zero =>
    cases hq
    refine ⟨a, ha, ?_⟩
    rw [hnext, h.1]
    rfl
  | succ k => exact h.2 k q (by simpa using hq)

/-- A change that leaves the links of the chain. -/
theorem Chain.congr (h : Chain next s head ps)
    (hsame : ∀ p ∈ ps, (s'.get p).map next = (s.get p).map next) : Chain next s' head ps := by
  refine ⟨h.1, fun k p hp => ?_⟩
  obtain ⟨a, ha, hnext⟩ := h.2 k p hp
  have hlink := hsame p (List.mem_of_getElem? hp)
  rw [ha, Option.map_some] at hlink
  obtain ⟨b, hb, hab⟩ := Option.map_eq_some_iff.mp hlink
  exact ⟨b, hb, hab.trans hnext⟩

theorem Chain.live (h : Chain next s head ps) (hp : p ∈ ps) : s.Live p := by
  obtain ⟨k, hk⟩ := List.getElem?_of_mem hp
  obtain ⟨a, ha, -⟩ := h.2 k p hk
  unfold Objects.Live
  rw [ha]
  rfl

/-- Two places with the same object would have the same way before them, to the end. -/
theorem Chain.nodup (h : Chain next s head ps) : ps.Nodup := by
  have hsame : ∀ n i j : Nat, ps[i]? = ps[j]? → i + n < ps.length → ps[i + n]? = ps[j + n]? := by
    intro n
    induction n with
    | zero =>
      intro i j hij _
      exact hij
    | succ n ih =>
      intro i j hij hlt
      have hn := ih i j hij (by omega)
      have hp : ps[i + n]? = some ps[i + n] := List.getElem?_eq_getElem (by omega)
      obtain ⟨a, ha, hnext⟩ := h.2 (i + n) _ hp
      rw [hp] at hn
      obtain ⟨b, hb, hnext'⟩ := h.2 (j + n) _ hn.symm
      rw [ha] at hb
      cases hb
      exact hnext.symm.trans hnext'
  rw [List.nodup_iff_getElem?_ne_getElem?]
  intro i j hij hj heq
  have hend := hsame (ps.length - j) i j heq (by omega)
  rw [List.getElem?_eq_none (show ps.length ≤ j + (ps.length - j) by omega),
    List.getElem?_eq_none_iff] at hend
  omega

theorem Chain.length_le (h : Chain next s head ps) : ps.length ≤ s.next := by
  have hsub : ps ⊆ List.range s.next := by
    intro p hp
    apply List.mem_range.mpr
    apply Nat.lt_of_not_le
    intro hle
    have hlive := h.live hp
    unfold Objects.Live at hlive
    rw [s.fresh p hle] at hlive
    cases hlive
  have hle := (List.subperm_of_subset h.nodup hsub).length_le
  rwa [List.length_range] at hle

/-! ## Along a chain -/

def walk (next : α → Option Nat) (f : α → Option β) (s : Objects α) :
    Nat → Option Nat → Option (Option (Nat × β))
  | 0, _ => none
  | _ + 1, none => some none
  | n + 1, some p =>
    match s.get p with
    | none => none
    | some a =>
      match f a with
      | some b => some (some (p, b))
      | none => walk next f s n (next a)

/-- What stands at place `k` of a chain is the first object with an answer. -/
structure FirstAt (f : α → Option β) (s : Objects α) (ps : List Nat) (k p : Nat) (b : β) : Prop where
  place : ps[k]? = some p
  answer : (s.get p).bind f = some b
  before : ∀ j q, j < k → ps[j]? = some q → (s.get q).bind f = none

theorem walk_chain {f : α → Option β} {n : Nat} (h : Chain next s head ps) (hn : ps.length < n) :
    (∃ k p b, FirstAt f s ps k p b ∧ walk next f s n head = some (some (p, b))) ∨
    ((∀ p ∈ ps, (s.get p).bind f = none) ∧ walk next f s n head = some none) := by
  induction ps generalizing n head with
  | nil =>
    obtain ⟨n, rfl⟩ := Nat.exists_eq_add_of_lt hn
    have hhead : head = none := h.1
    subst hhead
    exact .inr ⟨fun p hp => (by cases hp), rfl⟩
  | cons p ps ih =>
    obtain ⟨n, rfl⟩ := Nat.exists_eq_add_of_lt hn
    have hhead : head = some p := h.1
    subst hhead
    obtain ⟨a, ha, htail⟩ := h.tail
    rw [show (p :: ps).length + n + 1 = (ps.length + n + 1) + 1 by simp; omega]
    simp only [walk, ha]
    cases hf : f a with
    | some b =>
      refine .inl ⟨0, p, b, ⟨rfl, by rw [ha]; exact hf, fun j q hj => by omega⟩, rfl⟩
    | none =>
      rcases ih htail (show ps.length < ps.length + n + 1 by omega) with
        ⟨k, q, b, hfirst, hwalk⟩ | ⟨hnone, hwalk⟩
      · refine .inl ⟨k + 1, q, b, ⟨hfirst.place, hfirst.answer, fun j r hj hr => ?_⟩, hwalk⟩
        cases j with
        | zero =>
          cases hr
          rw [ha]
          exact hf
        | succ j => exact hfirst.before j r (by omega) hr
      · refine .inr ⟨fun q hq => ?_, hwalk⟩
        obtain rfl | hq := List.mem_cons.mp hq
        · rw [ha]
          exact hf
        · exact hnone q hq

/-! ## Freeing a chain -/

/-- The handles freed stand behind the objects left, in order. -/
def freeAll (next : α → Option Nat) : Nat → Option Nat → Objects α → Option (Objects α × List Nat)
  | 0, _, _ => none
  | _ + 1, none, s => some (s, [])
  | n + 1, some p, s =>
    match s.get p with
    | none => none
    | some a =>
      match s.free p with
      | none => none
      | some s' => (freeAll next n (next a) s').map fun (s'', ps) => (s'', p :: ps)

theorem freeAll_chain {n : Nat} (h : Chain next s head ps) (hn : ps.length < n) :
    ∃ s', freeAll next n head s = some (s', ps) ∧ s'.next = s.next ∧
      ∀ k, s'.get k = if k ∈ ps then none else s.get k := by
  induction ps generalizing n head s with
  | nil =>
    obtain ⟨n, rfl⟩ := Nat.exists_eq_add_of_lt hn
    have hhead : head = none := h.1
    subst hhead
    exact ⟨s, rfl, rfl, fun k => rfl⟩
  | cons p ps ih =>
    obtain ⟨n, rfl⟩ := Nat.exists_eq_add_of_lt hn
    have hhead : head = some p := h.1
    subst hhead
    have hnotin : p ∉ ps := (List.nodup_cons.mp h.nodup).1
    obtain ⟨a, ha, htail⟩ := h.tail
    obtain ⟨s1, hs1⟩ := Objects.free_of_live (h.live List.mem_cons_self)
    have hget := Objects.free_get hs1
    have htail1 : Chain next s1 (next a) ps := by
      refine htail.congr fun q hq => ?_
      have hqp : q ≠ p := fun heq => hnotin (heq ▸ hq)
      rw [hget, if_neg hqp]
    obtain ⟨s2, hs2, hnext2, hget2⟩ :=
      ih htail1 (show ps.length < ps.length + n + 1 by omega)
    refine ⟨s2, ?_, hnext2.trans (Objects.free_next hs1), fun k => ?_⟩
    · rw [show (p :: ps).length + n + 1 = (ps.length + n + 1) + 1 by simp; omega]
      simp only [freeAll, ha, hs1, hs2, Option.map_some]
    · rw [hget2, hget]
      by_cases hk : k = p
      · simp [hk]
      · simp [hk]

end Kit
