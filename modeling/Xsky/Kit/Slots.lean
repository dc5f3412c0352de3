import Mathlib.Data.List.Basic

/-!
# Kit.Slots

An array kept in a file of named values: its size under one name, and each entry under a name of its
own that is made from the index.

* `write` — stores a list, entry by entry, and then its length. Entries of a longer list that was
  there before stay behind it.
* `read`  — as many entries as the size says; one that is missing reads as a default.

`write_read`: what is read is what was written last.
-/

namespace Kit

structure Slots (α : Type _) where
  size : Nat
  slot : Nat → Option α

namespace Slots

variable {α : Type _}

def empty : Slots α := ⟨0, fun _ => none⟩

def setValue (a : Slots α) (i : Nat) (x : α) : Slots α :=
  { a with slot := fun j => if j = i then some x else a.slot j }

/-- Stores the list from index `i` on. -/
def fillFrom (a : Slots α) (i : Nat) : List α → Slots α
  | [] => a
  | x :: xs => fillFrom (a.setValue i x) (i + 1) xs

def write (a : Slots α) (l : List α) : Slots α := { a.fillFrom 0 l with size := l.length }

def read (a : Slots α) (dflt : α) : List α :=
  (List.range a.size).map fun i => (a.slot i).getD dflt

theorem fillFrom_slot (l : List α) : ∀ (a : Slots α) (i j : Nat),
    (a.fillFrom i l).slot j = if i ≤ j ∧ j < i + l.length then l[j - i]? else a.slot j := by
  induction l with
  | nil =>
    intro a i j
    rw [if_neg (by simp only [List.length_nil]; omega)]
    rfl
  | cons x xs ih =>
    intro a i j
    simp only [fillFrom, ih, setValue, List.length_cons]
    by_cases h : j = i
    · subst h
      rw [if_neg (by omega), if_pos rfl, if_pos (by omega), Nat.sub_self, List.getElem?_cons_zero]
    · by_cases hin : i + 1 ≤ j ∧ j < i + 1 + xs.length
      · obtain ⟨k, rfl⟩ : ∃ k, j = i + 1 + k := ⟨j - (i + 1), by omega⟩
        have hk : i + 1 + k - i = k + 1 := by omega
        rw [if_pos hin, if_pos (by omega), Nat.add_sub_cancel_left, hk, List.getElem?_cons_succ]
      · rw [if_neg hin, if_neg h, if_neg (by omega)]

theorem write_read (a : Slots α) (l : List α) (dflt : α) : (a.write l).read dflt = l := by
  apply List.ext_getElem
  · simp [read, write]
  · intro i h1 h2
    simp [read, write, fillFrom_slot, h2]

end Slots
end Kit
