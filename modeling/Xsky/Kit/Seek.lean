/-!
# Kit.Seek

The loop that looks for the first index with a property: `seek q k i` tries `k` indices from `i` on
and stops at the first that has it, or after the last one, at `i + k`.
-/

namespace Kit

def seek (q : Nat → Bool) : Nat → Nat → Nat
  | 0, i => i
  | k + 1, i => if q i then i else seek q k (i + 1)

theorem le_seek (q : Nat → Bool) (k i : Nat) : i ≤ seek q k i := by
  induction k generalizing i with
  | zero => exact Nat.le_refl i
  | succ k ih =>
    simp only [seek]
    split
    · exact Nat.le_refl i
    · exact Nat.le_of_succ_le (ih (i + 1))

theorem seek_le (q : Nat → Bool) (k i : Nat) : seek q k i ≤ i + k := by
  induction k generalizing i with
  | zero => exact Nat.le_refl i
  | succ k ih =>
    simp only [seek]
    split
    · omega
    · have := ih (i + 1)
      omega

/-- The index the loop stops at, before the end, has the property. -/
theorem seek_holds {q : Nat → Bool} {k i : Nat} (h : seek q k i < i + k) :
    q (seek q k i) = true := by
  induction k generalizing i with
  | zero => simp [seek] at h
  | succ k ih =>
    simp only [seek] at h ⊢
    split
    · assumption
    · rename_i hq
      rw [if_neg hq] at h
      exact ih (by omega)

/-- No index before it does. -/
theorem seek_first {q : Nat → Bool} {k i j : Nat} (hi : i ≤ j) (hj : j < seek q k i) :
    q j = false := by
  induction k generalizing i with
  | zero => simp only [seek] at hj; omega
  | succ k ih =>
    simp only [seek] at hj
    split at hj
    · omega
    · rename_i hq
      by_cases hij : i = j
      · subst hij
        simpa using hq
      · exact ih (by omega) hj

/-- The loop stops at the first index with the property. -/
theorem seek_eq {q : Nat → Bool} {k i j : Nat} (hi : i ≤ j) (hj : j < i + k) (hq : q j = true)
    (hfirst : ∀ x, i ≤ x → x < j → q x = false) : seek q k i = j := by
  have hle : seek q k i ≤ j := by
    apply Nat.le_of_not_lt
    intro hlt
    rw [seek_first hi hlt] at hq
    cases hq
  apply Nat.le_antisymm hle
  apply Nat.le_of_not_lt
  intro hlt
  have hh : q (seek q k i) = true := seek_holds (by omega)
  rw [hfirst _ (le_seek q k i) hlt] at hh
  cases hh

end Kit
