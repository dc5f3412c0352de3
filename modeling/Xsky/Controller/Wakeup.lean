import Xsky.Controller.TaskPool

/-!
# Controller.Wakeup

Whether a task may stay in the queue while every worker sleeps.

`push` notifies without the mutex and `cond.wait` has no predicate, so a notification that comes
while a worker is between its failed `try_dequeue` and `cond.wait` does not reach that worker.

* `Awake`  — the invariant: a queue with tasks and no `push` before its `notify_one` has a worker
  that will look at the queue again.
* `Noticed` — the last `push` before its `notify_one` does not come there while every worker is
  between the two.

`noLostWakeup_runs`: a run whose steps are all `Noticed` has no lost wakeup, and a step that is not
can be continued to one. `push_before_wait` is the shortest.
-/

namespace Xsky
namespace Controller

open Kit

namespace WorkerAt

/-- Behind a `try_dequeue` that failed and before `cond.wait`. -/
def between : WorkerAt → Prop
  | .locks => True
  | .enters => True
  | _ => False

/-- Blocked, or about to be, without another look at the queue. -/
def idle (p : WorkerAt) : Prop := p.between ∨ p = .waiting

end WorkerAt

/-- No state before the destructor has a task in the queue, no `push` before its `notify_one`, and
every worker blocked in `cond.wait`. -/
def NoLostWakeup (s : Pool) : Prop :=
  s.exit = false →
    ¬ (s.queue ≠ [] ∧ s.notifying = 0 ∧ ∀ w, w < s.workers → s.place w = .waiting)

def Noticed (s : Pool) : PoolStep → Prop
  | .notifyOne _ => s.exit = false → s.queue ≠ [] → s.notifying = 1 →
      ∃ w, w < s.workers ∧ ¬ (s.place w).between
  | _ => True

def Awake (s : Pool) : Prop :=
  s.exit = false → s.queue ≠ [] → s.notifying = 0 → ∃ w, w < s.workers ∧ ¬ (s.place w).idle

theorem Awake.noLostWakeup {s : Pool} (h : Awake s) : NoLostWakeup s := by
  rintro hexit ⟨hqueue, hnone, hall⟩
  obtain ⟨w, hw, hidle⟩ := h hexit hqueue hnone
  exact hidle (.inr (hall w hw))

theorem WellFormed.lt {s : Pool} (h : WellFormed s) {w : Nat} (hw : s.place w ≠ .ended) :
    w < s.workers := Nat.lt_of_not_le fun hle => hw (h.outside w hle)

/-- A worker that moves, and does not fall idle. -/
theorem Awake.move {s : Pool} (h : Awake s) {w : Nat} {p : WorkerAt}
    (hp : p.idle → (s.place w).idle) : Awake (s.move w p) := by
  intro hexit hqueue hnone
  obtain ⟨v, hv, hidle⟩ := h hexit hqueue hnone
  refine ⟨v, hv, ?_⟩
  by_cases hvw : v = w
  · subst hvw
    simp only [Pool.move, Function.update_self]
    exact fun hi => hidle (hp hi)
  · simp only [Pool.move, Function.update_of_ne hvw]
    exact hidle

theorem awake_after {s : Pool} {i : PoolStep} (hwf : WellFormed s) (h : Awake s)
    (hn : Noticed s i) : Awake (s.after i) := by
  cases i with
  | enqueue task =>
    intro _ _ hnone
    cases hnone
  | notifyOne w =>
    simp only [Pool.after]
    split
    · exact h
    rename_i hpos
    split
    · rename_i hw
      intro _ _ _
      refine ⟨w, hwf.lt (by rw [hw]; simp), ?_⟩
      simp [Pool.move, WorkerAt.idle, WorkerAt.between]
    · split
      · rename_i hwaiters
        intro hexit hqueue hnone
        have hone : s.notifying = 1 := by
          have h1 : s.notifying - 1 = 0 := hnone
          omega
        obtain ⟨v, hv, hbetween⟩ := hn hexit hqueue hone
        refine ⟨v, hv, ?_⟩
        rintro (hb | hb)
        · exact hbetween hb
        · exact countAt_eq_zero hwaiters hv hb
      · exact h
  | exitTest w =>
    simp only [Pool.after]
    split
    · refine h.move fun hi => ?_
      split at hi <;> simp [WorkerAt.idle, WorkerAt.between] at hi
    · exact h
  | tryDequeue w i =>
    simp only [Pool.after]
    split
    · rename_i hw
      split
      · intro _ _ _
        refine ⟨w, hwf.lt (by rw [hw]; simp), ?_⟩
        simp [Pool.move, WorkerAt.idle, WorkerAt.between]
      · split
        · rename_i hempty
          intro _ hqueue _
          exact absurd hempty hqueue
        · exact h
    · exact h
  | lock w =>
    simp only [Pool.after]
    split
    · rename_i hw
      exact h.move fun _ => by rw [hw.1]; exact .inl trivial
    · exact h
  | wait w =>
    simp only [Pool.after]
    split
    · rename_i hw
      exact h.move fun _ => by rw [hw]; exact .inl trivial
    · exact h
  | spurious w =>
    simp only [Pool.after]
    split
    · exact h.move fun hi => by simp [WorkerAt.idle, WorkerAt.between] at hi
    · exact h
  | relock w =>
    simp only [Pool.after]
    split
    · exact h.move fun hi => by simp [WorkerAt.idle, WorkerAt.between] at hi
    · exact h
  | unlock w =>
    simp only [Pool.after]
    split
    · exact h.move fun hi => by simp [WorkerAt.idle, WorkerAt.between] at hi
    · exact h
  | execute w =>
    simp only [Pool.after]
    split
    · exact h.move fun hi => by simp [WorkerAt.idle, WorkerAt.between] at hi
    · exact h
  | setExit =>
    intro hexit
    cases hexit
  | notifyAll =>
    simp only [Pool.after]
    split
    · rename_i he
      intro hexit
      rw [he.1] at hexit
      cases hexit
    · exact h

theorem always_noLostWakeup {n : Nat} {is : List PoolStep}
    (h : Along poolStep Noticed (.start n) is) : Always poolStep NoLostWakeup (.start n) is := by
  have hstep : ∀ s i, WellFormed s ∧ Awake s → Noticed s i →
      ∃ s', poolStep s i = some s' ∧ WellFormed s' ∧ Awake s' := by
    rintro s i ⟨hwf, hawake⟩ hn
    exact ⟨_, rfl, hwf.after i, awake_after hwf hawake hn⟩
  have hstart : Awake (.start n) := by
    intro _ hqueue _
    exact absurd rfl hqueue
  exact (always_of_along hstep ⟨wellFormed_start n, hstart⟩ h).mono fun s hs => hs.2.noLostWakeup

/-! ## The way to a lost wakeup -/

def Pool.notWaiting (s : Pool) : Nat := countAt (· ≠ .waiting) s.place s.workers

/-- The worker at `cond.wait` blocks, and one less is awake. -/
theorem after_wait {s : Pool} {w : Nat} (hwf : WellFormed s) (hw : s.place w = .enters) :
    s.after (.wait w) = { s.move w .waiting with mutex := none } ∧
      (s.after (.wait w)).notWaiting + 1 = s.notWaiting := by
  have hafter : s.after (.wait w) = { s.move w .waiting with mutex := none } := if_pos hw
  have hcount := countAt_update (p := (· ≠ WorkerAt.waiting)) s.place .waiting
    (hwf.lt (w := w) (by rw [hw]; simp))
  rw [hw] at hcount
  refine ⟨hafter, ?_⟩
  rw [hafter]
  simpa [Pool.notWaiting, Pool.move] using hcount

/-- When every worker is blocked or about to be, and not all are, one gets to `cond.wait`. -/
theorem reach_wait {s : Pool} (hwf : WellFormed s) (hpos : 0 < s.notWaiting)
    (hidle : ∀ w, w < s.workers → (s.place w).idle) :
    ∃ js t w, run poolStep s js = some t ∧ WellFormed t ∧ t.place w = .enters ∧
      (t.exit = s.exit ∧ t.queue = s.queue ∧ t.notifying = s.notifying) ∧
      t.notWaiting = s.notWaiting ∧ ∀ v, v < t.workers → (t.place v).idle := by
  cases hm : s.mutex with
  | some h =>
    have hh := (hwf.holder h).mpr hm
    have hlt : h < s.workers := hwf.lt fun he => by
      rw [he] at hh
      exact hh
    refine ⟨[], s, h, rfl, hwf, ?_, ⟨rfl, rfl, rfl⟩, rfl, hidle⟩
    rcases hidle h hlt with hb | hb
    · cases hp : s.place h <;> simp_all [WorkerAt.between, WorkerAt.holds]
    · rw [hb] at hh
      exact hh.elim
  | none =>
    -- the mutex is free, so the worker is before it and takes it
    obtain ⟨w, hlt, hne⟩ := exists_of_countAt_pos (p := (· ≠ WorkerAt.waiting)) hpos
    have hw : s.place w = .locks := by
      have hnot : ¬ (s.place w).holds := fun hh => by
        rw [hwf.holder w, hm] at hh
        cases hh
      rcases hidle w hlt with hb | hb
      · cases hp : s.place w <;> simp_all [WorkerAt.between, WorkerAt.holds]
      · exact absurd hb hne
    have hafter : s.after (.lock w) = { s.move w .enters with mutex := some w } :=
      if_pos ⟨hw, hm⟩
    refine ⟨[.lock w], s.after (.lock w), w, rfl, hwf.after _, ?_, ?_, ?_, ?_⟩
    · rw [hafter]
      simp [Pool.move]
    · rw [hafter]
      exact ⟨rfl, rfl, rfl⟩
    · have hcount := countAt_update (p := (· ≠ WorkerAt.waiting)) s.place .enters hlt
      rw [hafter]
      simpa [Pool.notWaiting, Pool.move, hw] using hcount
    · intro v hv
      rw [hafter] at hv ⊢
      by_cases hvw : v = w
      · subst hvw
        simp only [Pool.move, Function.update_self]
        exact .inl trivial
      · simp only [Pool.move, Function.update_of_ne hvw]
        exact hidle v hv

/-- When every worker is blocked or about to be, they all block. -/
theorem all_block {k : Nat} : ∀ {s : Pool}, s.notWaiting = k → WellFormed s →
    (∀ w, w < s.workers → (s.place w).idle) →
    ∃ js s', run poolStep s js = some s' ∧
      (s'.exit = s.exit ∧ s'.queue = s.queue ∧ s'.notifying = s.notifying) ∧
      ∀ w, w < s'.workers → s'.place w = .waiting := by
  induction k with
  | zero =>
    intro s hk _ _
    refine ⟨[], s, rfl, ⟨rfl, rfl, rfl⟩, fun w hw => ?_⟩
    by_contra hne
    exact countAt_eq_zero hk hw hne
  | succ k ih =>
    intro s hk hwf hidle
    obtain ⟨js, t, w, hjs, hwft, hw, ⟨he, hq, hn⟩, hcount, hidle'⟩ :=
      reach_wait hwf (by omega) hidle
    obtain ⟨hafter, hless⟩ := after_wait hwft hw
    obtain ⟨js', s', hjs', ⟨he', hq', hn'⟩, hall⟩ :=
      ih (s := t.after (.wait w)) (by omega) (hwft.after _) fun v hv => by
        rw [hafter] at hv ⊢
        by_cases hvw : v = w
        · subst hvw
          simp only [Pool.move, Function.update_self]
          exact .inr rfl
        · simp only [Pool.move, Function.update_of_ne hvw]
          exact hidle' v hv
    rw [hafter] at he' hq' hn'
    refine ⟨js ++ .wait w :: js', s', ?_, ⟨he'.trans he, hq'.trans hq, hn'.trans hn⟩, hall⟩
    rw [run_append hjs]
    exact hjs'

/-- A notification that no worker is there to notice leads to a lost wakeup. -/
theorem lost_of_not_noticed {s : Pool} {i : PoolStep} (hwf : WellFormed s) (h : ¬ Noticed s i) :
    ∃ js, ¬ Always poolStep NoLostWakeup (s.after i) js := by
  cases i with
  | notifyOne w =>
    simp only [Noticed, Classical.not_imp, not_exists, not_and, not_not] at h
    obtain ⟨hexit, hqueue, hone, hall⟩ := h
    have hwaiters : s.waiters = 0 := by
      by_contra hne
      obtain ⟨v, hv, hwait⟩ := exists_of_countAt_pos (Nat.pos_of_ne_zero hne)
      have hb := hall v hv
      rw [hwait] at hb
      exact hb
    have hw : s.place w ≠ .waiting := by
      intro hw
      exact countAt_eq_zero hwaiters (hwf.lt (by rw [hw]; simp)) hw
    have hafter : s.after (.notifyOne w) = { s with notifying := s.notifying - 1 } := by
      simp only [Pool.after]
      rw [if_neg (by omega), if_neg hw, if_pos hwaiters]
    obtain ⟨js, s', hjs, ⟨he, hq, hn⟩, hall'⟩ :=
      all_block rfl (hwf.after (.notifyOne w)) fun v hv => by
        rw [hafter] at hv ⊢
        exact .inl (hall v hv)
    rw [hafter] at he hq hn
    refine ⟨js, not_always_of_run hjs fun hno => ?_⟩
    refine hno (he.trans hexit) ⟨by rw [hq]; exact hqueue, ?_, hall'⟩
    rw [hn, hone]
  | _ => exact absurd trivial h

/-- No wakeup is lost in a run whose notifications can all be noticed; one that cannot be can be
followed by a lost wakeup. -/
theorem noLostWakeup_runs (n : Nat) :
    (∀ is, Along poolStep Noticed (.start n) is → Always poolStep NoLostWakeup (.start n) is) ∧
    ∀ is s i, run poolStep (.start n) is = some s → ¬ Noticed s i →
      ∃ js, ¬ Always poolStep NoLostWakeup (.start n) (is ++ i :: js) := by
  refine ⟨fun is h => always_noLostWakeup h, fun is s i hs hi => fails_of_run hs ?_⟩
  exact lost_of_not_noticed (wellFormed_run (wellFormed_start n) hs) hi

/-- One worker, and a whole `push` between its `try_dequeue` and its `cond.wait`. -/
theorem push_before_wait :
    ¬ Always poolStep NoLostWakeup (.start 1)
      [.exitTest 0, .tryDequeue 0 0, .enqueue 5, .notifyOne 0, .lock 0, .wait 0] := by
  intro h
  obtain ⟨s, hs, hno⟩ := h.run
  cases hs
  refine hno rfl ⟨by decide, rfl, fun w hw => ?_⟩
  have h0 : w = 0 := Nat.lt_one_iff.mp hw
  subst h0
  rfl

end Controller
end Xsky
