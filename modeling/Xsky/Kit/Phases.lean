import Mathlib.Data.Nat.Count

/-!
# Kit.Phases

Numbered threads, each at a place of its program, and how many of the first `n` are at places with
a property.

`countAt_update` says what moving one thread does to the number, and `exists_of_countAt_pos` finds a
thread to move.
-/

namespace Kit

variable {α : Type _} {p : α → Prop} [DecidablePred p]

/-- The number of threads below `n` at a place with the property. -/
def countAt (p : α → Prop) [DecidablePred p] (f : Nat → α) (n : Nat) : Nat :=
  Nat.count (fun t => p (f t)) n

theorem countAt_succ (f : Nat → α) (n : Nat) :
    countAt p f (n + 1) = countAt p f n + if p (f n) then 1 else 0 := Nat.count_succ _ n

theorem countAt_congr {f g : Nat → α} {n : Nat} (h : ∀ t, t < n → (p (f t) ↔ p (g t))) :
    countAt p f n = countAt p g n := by
  induction n with
  | zero => rfl
  | succ n ih =>
    rw [countAt_succ, countAt_succ, ih fun t ht => h t (Nat.lt_succ_of_lt ht),
      if_congr (h n (Nat.lt_succ_self n)) rfl rfl]

theorem countAt_update_ge (f : Nat → α) {t n : Nat} (x : α) (h : n ≤ t) :
    countAt p (Function.update f t x) n = countAt p f n := by
  induction n with
  | zero => rfl
  | succ n ih =>
    rw [countAt_succ, countAt_succ, ih (by omega), Function.update_of_ne (by omega)]

/-- One thread counts with its new place instead of its old one. -/
theorem countAt_update (f : Nat → α) {t n : Nat} (x : α) (h : t < n) :
    countAt p (Function.update f t x) n + (if p (f t) then 1 else 0) =
      countAt p f n + if p x then 1 else 0 := by
  induction n with
  | zero => omega
  | succ n ih =>
    rw [countAt_succ, countAt_succ]
    by_cases ht : t = n
    · subst ht
      rw [countAt_update_ge f x (Nat.le_refl t), Function.update_self]
      omega
    · have hn : t < n := by omega
      rw [Function.update_of_ne (fun h => ht h.symm)]
      have := ih hn
      omega

theorem exists_of_countAt_pos {f : Nat → α} {n : Nat} (h : 0 < countAt p f n) :
    ∃ t, t < n ∧ p (f t) := by
  induction n with
  | zero => simp [countAt] at h
  | succ n ih =>
    rw [countAt_succ] at h
    by_cases hp : p (f n)
    · exact ⟨n, Nat.lt_succ_self n, hp⟩
    · rw [if_neg hp, Nat.add_zero] at h
      obtain ⟨t, ht, hpt⟩ := ih h
      exact ⟨t, Nat.lt_succ_of_lt ht, hpt⟩

theorem countAt_eq_zero {f : Nat → α} {n : Nat} (h : countAt p f n = 0) {t : Nat} (ht : t < n) :
    ¬ p (f t) := by
  induction n with
  | zero => omega
  | succ n ih =>
    rw [countAt_succ] at h
    by_cases hn : t = n
    · subst hn
      intro hp
      rw [if_pos hp] at h
      omega
    · exact ih (by omega) (by omega)

theorem countAt_none {f : Nat → α} {n : Nat} (h : ∀ t, t < n → ¬ p (f t)) : countAt p f n = 0 := by
  induction n with
  | zero => rfl
  | succ n ih =>
    rw [countAt_succ, ih fun t ht => h t (Nat.lt_succ_of_lt ht), if_neg (h n (Nat.lt_succ_self n))]

end Kit
