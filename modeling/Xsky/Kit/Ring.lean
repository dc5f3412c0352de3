/-!
# Kit.Ring

A window on a ring of `n` cells, and the queue it represents.

`ringAt n b i` is the cell `i` places after `b`, counted around the ring. `Window n cell b xs`
says that the `xs.length` cells from `b` on hold the elements of `xs` in order, at most `n` of
them; `cell j x` is whatever it means for cell `j` to hold `x`. A queue in a ring is a window that
grows at its far end (`Window.snoc`) and shrinks at its near end (`Window.tail`).

`follow` goes along links from a place on; around a ring of linked places it comes back where it
started (`follow_ring`).
-/

namespace Kit

def ringAt (n b i : Nat) : Nat := (b + i) % n

theorem ringAt_lt {n : Nat} (b i : Nat) (hn : 0 < n) : ringAt n b i < n := Nat.mod_lt _ hn

theorem ringAt_succ (n b i : Nat) : (ringAt n b i + 1) % n = ringAt n b (i + 1) := by
  simp only [ringAt, Nat.mod_add_mod, Nat.add_assoc]

theorem ringAt_shift (n b i : Nat) : ringAt n (b + 1) i = ringAt n b (i + 1) := by
  simp only [ringAt]
  congr 1
  omega

/-- Fewer than `n` places apart, two cells of the ring are the same only at the same place. -/
theorem ringAt_inj {n b i j : Nat} (hi : i < n) (hj : j < n) (h : ringAt n b i = ringAt n b j) :
    i = j := by
  simp only [ringAt] at h
  have hi' := Nat.div_add_mod (b + i) n
  have hj' := Nat.div_add_mod (b + j) n
  rw [h] at hi'
  have hd : (b + i) / n = (b + j) / n := by
    apply Nat.le_antisymm
    · apply Nat.le_of_lt_succ
      apply (Nat.mul_lt_mul_left (show 0 < n by omega)).mp
      rw [Nat.mul_succ]
      omega
    · apply Nat.le_of_lt_succ
      apply (Nat.mul_lt_mul_left (show 0 < n by omega)).mp
      rw [Nat.mul_succ]
      omega
  rw [hd] at hi'
  omega

/-- The first `k` places along the links from `p`, and the one behind them. -/
def follow {α : Type _} (next : α → Option α) : Nat → α → Option (List α × α)
  | 0, p => some ([], p)
  | k + 1, p =>
    match next p with
    | none => none
    | some q => (follow next k q).map fun (ps, r) => (p :: ps, r)

theorem follow_ringAt {α : Type _} {next : α → Option α} {n : Nat} {place : Nat → α} (hn : 0 < n)
    (hlink : ∀ i, i < n → next (place i) = some (place ((i + 1) % n))) (k b : Nat) :
    follow next k (place (ringAt n b 0)) =
      some ((List.range k).map fun i => place (ringAt n b i), place (ringAt n b k)) := by
  induction k generalizing b with
  | zero => rfl
  | succ k ih =>
    have hnext := hlink (ringAt n b 0) (ringAt_lt b 0 hn)
    rw [ringAt_succ, ← ringAt_shift] at hnext
    simp only [follow, hnext, ih (b + 1), Option.map_some]
    simp only [List.range_succ_eq_map, List.map_cons, List.map_map, ringAt_shift]
    rfl

/-- Once around. -/
theorem follow_ring {α : Type _} {next : α → Option α} {n : Nat} {place : Nat → α} (hn : 0 < n)
    (hlink : ∀ i, i < n → next (place i) = some (place ((i + 1) % n))) :
    follow next n (place 0) = some ((List.range n).map place, place 0) := by
  have hround := follow_ringAt hn hlink n 0
  have h0 : ringAt n 0 0 = 0 := by simp [ringAt]
  have hend : ringAt n 0 n = 0 := by simp [ringAt]
  rw [h0, hend] at hround
  rw [hround]
  congr 2
  refine List.map_congr_left fun i hi => ?_
  rw [ringAt, Nat.zero_add, Nat.mod_eq_of_lt (List.mem_range.mp hi)]

structure Window {α : Type _} (n : Nat) (cell : Nat → α → Prop) (b : Nat) (xs : List α) :
    Prop where
  fits : xs.length ≤ n
  holds : ∀ i (h : i < xs.length), cell (ringAt n b i) xs[i]

namespace Window

variable {α : Type _} {n b : Nat} {cell cell' : Nat → α → Prop} {x : α} {xs : List α}

theorem nil : Window n cell b [] := ⟨Nat.zero_le _, fun _ h => absurd h (Nat.not_lt_zero _)⟩

/-- The near end of the window. -/
theorem head (h : Window n cell b (x :: xs)) : cell (ringAt n b 0) x := h.holds 0 (by simp)

theorem tail (h : Window n cell b (x :: xs)) : Window n cell (b + 1) xs := by
  refine ⟨?_, fun i hi => ?_⟩
  · have := h.fits
    simp only [List.length_cons] at this
    omega
  · rw [ringAt_shift]
    exact h.holds (i + 1) (Nat.succ_lt_succ hi)

/-- A write at the far end of the window, which leaves every other cell as it was. -/
theorem snoc (h : Window n cell b xs) (hlt : xs.length < n)
    (hnew : cell' (ringAt n b xs.length) x)
    (hkeep : ∀ j y, j < n → j ≠ ringAt n b xs.length → cell j y → cell' j y) :
    Window n cell' b (xs ++ [x]) := by
  refine ⟨by simp only [List.length_append, List.length_singleton]; omega, fun i hi => ?_⟩
  rw [List.length_append, List.length_singleton] at hi
  by_cases hlast : i = xs.length
  · subst hlast
    simpa using hnew
  · have hi' : i < xs.length := by omega
    rw [List.getElem_append_left hi']
    refine hkeep _ _ (ringAt_lt _ _ (by omega)) (fun he => ?_) (h.holds i hi')
    exact hlast (ringAt_inj (by omega) hlt he)

end Window

end Kit
