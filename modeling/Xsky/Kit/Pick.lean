/-!
# Kit.Pick

What a list has at the positions with a property, its first one counted as `k`.

`pick_lines` takes a list in lines of one length; `pick_interval` is the case of positions in a row.
-/

namespace Kit

variable {α : Type _}

def pick (P : Nat → Bool) : Nat → List α → List α
  | _, [] => []
  | k, x :: xs => if P k then x :: pick P (k + 1) xs else pick P (k + 1) xs

variable {P Q : Nat → Bool}

theorem pick_cons (k : Nat) (x : α) (xs : List α) :
    pick P k (x :: xs) = if P k then x :: pick P (k + 1) xs else pick P (k + 1) xs := rfl

theorem pick_append (k : Nat) (xs ys : List α) :
    pick P k (xs ++ ys) = pick P k xs ++ pick P (k + xs.length) ys := by
  induction xs generalizing k with
  | nil => rfl
  | cons x xs ih =>
    rw [List.cons_append, pick_cons, pick_cons, ih, List.length_cons,
      show k + 1 + xs.length = k + (xs.length + 1) by omega]
    split
    · rfl
    · rfl

/-- Only what there is counts. -/
theorem pick_congr {j k : Nat} {xs : List α} (h : ∀ i < xs.length, P (j + i) = Q (k + i)) :
    pick P j xs = pick Q k xs := by
  induction xs generalizing j k with
  | nil => rfl
  | cons x xs ih =>
    have hhead := h 0 (Nat.zero_lt_succ _)
    have htail : pick P (j + 1) xs = pick Q (k + 1) xs := by
      refine ih fun i hi => ?_
      have hnext := h (i + 1) (Nat.succ_lt_succ hi)
      rwa [show j + (i + 1) = j + 1 + i by omega, show k + (i + 1) = k + 1 + i by omega] at hnext
    rw [pick_cons, pick_cons, htail, show P j = Q k from hhead]

theorem pick_none {k : Nat} {xs : List α} (h : ∀ i < xs.length, P (k + i) = false) :
    pick P k xs = [] := by
  induction xs generalizing k with
  | nil => rfl
  | cons x xs ih =>
    have hhead : P k = false := h 0 (Nat.zero_lt_succ _)
    rw [pick_cons, hhead, if_neg Bool.false_ne_true]
    refine ih fun i hi => ?_
    have hnext := h (i + 1) (Nat.succ_lt_succ hi)
    rwa [show k + (i + 1) = k + 1 + i by omega] at hnext

theorem pick_ne_nil {k i : Nat} {xs : List α} (hi : i < xs.length) (h : P (k + i) = true) :
    pick P k xs ≠ [] := by
  induction xs generalizing k i with
  | nil => cases hi
  | cons x xs ih =>
    rw [pick_cons]
    split
    · exact List.cons_ne_nil _ _
    · rename_i hhead
      cases i with
      | zero => exact absurd h hhead
      | succ i =>
        refine ih (Nat.lt_of_succ_lt_succ hi) ?_
        rwa [show k + 1 + i = k + (i + 1) by omega]

theorem pick_interval (a b k : Nat) (xs : List α) :
    pick (fun i => decide (a ≤ i ∧ i < b)) k xs = (xs.drop (a - k)).take (b - max a k) := by
  induction xs generalizing k with
  | nil =>
    rw [List.drop_nil, List.take_nil]
    rfl
  | cons x xs ih =>
    rw [pick_cons, ih]
    by_cases hstart : a ≤ k
    · have hnone : a - k = 0 ∧ a - (k + 1) = 0 := by omega
      rw [hnone.1, hnone.2, List.drop_zero, List.drop_zero]
      by_cases hend : k < b
      · have hone : b - max a k = b - max a (k + 1) + 1 := by omega
        rw [if_pos (decide_eq_true ⟨hstart, hend⟩), hone, List.take_succ_cons]
      · have hzero : b - max a k = 0 ∧ b - max a (k + 1) = 0 := by omega
        rw [if_neg (by simp [hend]), hzero.1, hzero.2, List.take_zero, List.take_zero]
    · have hone : a - k = a - (k + 1) + 1 := by omega
      have hmax : max a k = max a (k + 1) := by omega
      rw [if_neg (by simp [hstart]), hone, List.drop_succ_cons, hmax]

/-- A list of `n` lines of `w`, taken line by line. -/
theorem pick_lines (w n : Nat) (xs : List α) :
    ((List.range n).flatMap fun line => pick P (w * line) ((xs.drop (w * line)).take w)) =
      pick P 0 (xs.take (w * n)) := by
  induction n with
  | zero =>
    rw [Nat.mul_zero, List.take_zero]
    rfl
  | succ n ih =>
    rw [List.range_succ, List.flatMap_append, ih, List.flatMap_cons, List.flatMap_nil,
      List.append_nil, Nat.mul_succ, List.take_add, pick_append, Nat.zero_add, List.length_take]
    by_cases hlong : w * n ≤ xs.length
    · rw [Nat.min_eq_left hlong]
    · rw [List.drop_of_length_le (by omega), List.take_nil]
      rfl

end Kit
