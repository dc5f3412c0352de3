import Xsky.Controller.Wakeup

/-!
# Controller.Shutdown

Whether the destructor's `join` may wait for a worker that sleeps.

The destructor sets `exit` and notifies without the mutex, so a worker that passed its exit test
before may enter `cond.wait` behind `notify_all`. `Settled` is the state in which none will: no
worker is between a failed `try_dequeue` and `cond.wait`, and there is a task for every worker that
is about to look for one.

`noHang_runs`: a run whose `notify_all` comes in a settled state has no hang, and one that comes in
another state can be continued to one. `notify_before_wait` is the shortest.
-/

namespace Xsky
namespace Controller

open Kit

/-- No state behind `notify_all` has a worker blocked in `cond.wait`. -/
def NoHang (s : Pool) : Prop :=
  s.joining = true → ∀ w, w < s.workers → s.place w ≠ .waiting

def Pool.trying (s : Pool) : Nat := countAt (· = .tries) s.place s.workers

structure Settled (s : Pool) : Prop where
  none_between : ∀ w, w < s.workers → ¬ (s.place w).between
  tasks : s.trying ≤ s.queue.length

/-- The `notify_all` of the destructor comes in a settled state. -/
def NotifiesSettled (s : Pool) : PoolStep → Prop
  | .notifyAll => s.exit = true → s.joining = false → Settled s
  | _ => True

/-- What holds behind `notify_all`. -/
structure Ending (s : Pool) : Prop where
  joining : s.joining = true
  exit : s.exit = true
  settled : Settled s
  none_waiting : ∀ w, w < s.workers → s.place w ≠ .waiting

/-- A worker moves, from a place where it does not look for a task, to one where it does not sleep
or look for a task. -/
theorem Ending.move {s : Pool} (h : Ending s) {w : Nat} {p : WorkerAt} (hw : s.place w ≠ .tries)
    (hp : ¬ p.idle) (hp' : p ≠ .tries) : Ending (s.move w p) := by
  obtain ⟨hjoin, hexit, ⟨hbetween, htasks⟩, hwaiting⟩ := h
  refine ⟨hjoin, hexit, ⟨fun v hv => ?_, ?_⟩, fun v hv => ?_⟩
  · by_cases hvw : v = w
    · subst hvw
      simp only [Pool.move, Function.update_self]
      exact fun hb => hp (.inl hb)
    · simp only [Pool.move, Function.update_of_ne hvw]
      exact hbetween v hv
  · have hsame : (s.move w p).trying = s.trying := by
      apply countAt_congr
      intro v _
      by_cases hvw : v = w
      · subst hvw
        simp [Pool.move, hw, hp']
      · simp [Pool.move, Function.update_of_ne hvw]
    rw [hsame]
    exact htasks
  · by_cases hvw : v = w
    · subst hvw
      simp only [Pool.move, Function.update_self]
      exact fun hb => hp (.inr hb)
    · simp only [Pool.move, Function.update_of_ne hvw]
      exact hwaiting v hv

/-- One task less in the queue, and one worker less that looks for one. -/
theorem trying_dequeue {s : Pool} (hwf : WellFormed s) {w : Nat} (hw : s.place w = .tries)
    {p : WorkerAt} (hp : p ≠ .tries) : (s.move w p).trying + 1 = s.trying := by
  have hcount := countAt_update (p := (· = WorkerAt.tries)) s.place p
    (hwf.lt (w := w) (by rw [hw]; simp))
  rw [if_pos hw, if_neg hp] at hcount
  exact hcount

theorem Ending.after {s : Pool} (hwf : WellFormed s) (h : Ending s) (i : PoolStep) :
    Ending (s.after i) := by
  obtain ⟨hjoin, hexit, ⟨hbetween, htasks⟩, hwaiting⟩ := id h
  have hnone : ∀ w, s.place w ≠ .waiting := by
    intro w hw
    exact hwaiting w (hwf.lt (by rw [hw]; simp)) hw
  have hnot : ∀ w, ¬ (s.place w).between := by
    intro w hb
    refine hbetween w (hwf.lt fun he => ?_) hb
    rw [he] at hb
    exact hb
  cases i with
  | enqueue task =>
    refine ⟨hjoin, hexit, ⟨hbetween, ?_⟩, hwaiting⟩
    simp only [Pool.after, List.length_append, List.length_singleton]
    exact Nat.le_succ_of_le htasks
  | notifyOne w =>
    simp only [Pool.after]
    split
    · exact h
    · rw [if_neg (hnone w)]
      split
      · exact ⟨hjoin, hexit, ⟨hbetween, htasks⟩, hwaiting⟩
      · exact h
  | exitTest w =>
    simp only [Pool.after]
    split
    · rename_i hw
      exact h.move (by rw [hw]; simp) (by simp [WorkerAt.idle, WorkerAt.between]) (by simp)
    · exact h
  | tryDequeue w i =>
    simp only [Pool.after]
    split
    · rename_i hw
      split
      · rename_i task htask
        obtain ⟨hi, -⟩ := List.getElem?_eq_some_iff.mp htask
        have hcount := trying_dequeue hwf hw (p := .executing task) (by simp)
        refine ⟨hjoin, hexit, ⟨fun v hv => ?_, ?_⟩, fun v hv => ?_⟩
        · by_cases hvw : v = w
          · subst hvw
            simp [Pool.move, WorkerAt.between]
          · simp only [Pool.move, Function.update_of_ne hvw]
            exact hbetween v hv
        · have hlen : (s.queue.eraseIdx i).length = s.queue.length - 1 :=
            List.length_eraseIdx_of_lt hi
          show (s.move w (.executing task)).trying ≤ (s.queue.eraseIdx i).length
          omega
        · by_cases hvw : v = w
          · subst hvw
            simp [Pool.move]
          · simp only [Pool.move, Function.update_of_ne hvw]
            exact hwaiting v hv
      · split
        · -- no worker looks for a task when there is none
          rename_i hempty
          have hcount := trying_dequeue hwf hw (p := .locks) (by simp)
          rw [hempty, List.length_nil] at htasks
          omega
        · exact h
    · exact h
  | lock w =>
    simp only [Pool.after]
    split
    · rename_i hw
      exact absurd (by rw [hw.1]; trivial) (hnot w)
    · exact h
  | wait w =>
    simp only [Pool.after]
    split
    · rename_i hw
      exact absurd (by rw [hw]; trivial) (hnot w)
    · exact h
  | spurious w =>
    simp only [Pool.after]
    rw [if_neg (hnone w)]
    exact h
  | relock w =>
    simp only [Pool.after]
    split
    · rename_i hw
      obtain ⟨hjoin', hexit', ⟨hb, ht⟩, hwait⟩ := h.move (w := w) (p := .unlocks)
        (by rw [hw.1]; simp) (by simp [WorkerAt.idle, WorkerAt.between]) (by simp)
      exact ⟨hjoin', hexit', ⟨hb, ht⟩, hwait⟩
    · exact h
  | unlock w =>
    simp only [Pool.after]
    split
    · rename_i hw
      obtain ⟨hjoin', hexit', ⟨hb, ht⟩, hwait⟩ := h.move (w := w) (p := .top) (by rw [hw]; simp)
        (by simp [WorkerAt.idle, WorkerAt.between]) (by simp)
      exact ⟨hjoin', hexit', ⟨hb, ht⟩, hwait⟩
    · exact h
  | execute w =>
    simp only [Pool.after]
    split
    · rename_i hw
      exact h.move (by rw [hw]; simp) (by simp [WorkerAt.idle, WorkerAt.between]) (by simp)
    · exact h
  | setExit => exact ⟨hjoin, rfl, ⟨hbetween, htasks⟩, hwaiting⟩
  | notifyAll =>
    simp only [Pool.after]
    rw [if_neg (by simp [hjoin])]
    exact h

/-- A step that is not the destructor's `notify_all`. -/
theorem joining_after {s : Pool} (hj : s.joining = false) {i : PoolStep} (hi : i ≠ .notifyAll) :
    (s.after i).joining = false := by
  cases i with
  | notifyAll => exact absurd rfl hi
  | _ =>
    simp only [Pool.after, Pool.move]
    (repeat' split) <;> exact hj

theorem after_notifyAll {s : Pool} (hexit : s.exit = true) (hj : s.joining = false) :
    s.after .notifyAll = { s with
      place := fun w => if s.place w = .waiting then .woken else s.place w
      joining := true } := if_pos ⟨hexit, hj⟩

theorem trying_notifyAll {s : Pool} (hexit : s.exit = true) (hj : s.joining = false) :
    (s.after .notifyAll).trying = s.trying := by
  rw [after_notifyAll hexit hj]
  apply countAt_congr
  intro w _
  by_cases hw : s.place w = .waiting <;> simp [hw]

theorem Settled.notifyAll {s : Pool} (h : Settled s) (hexit : s.exit = true)
    (hj : s.joining = false) : Ending (s.after .notifyAll) := by
  have htrying := trying_notifyAll hexit hj
  rw [after_notifyAll hexit hj] at htrying ⊢
  refine ⟨rfl, hexit, ⟨fun w hw => ?_, ?_⟩, fun w hw => ?_⟩
  · simp only
    split
    · simp [WorkerAt.between]
    · exact h.none_between w hw
  · rw [htrying]
    exact h.tasks
  · simp only
    split
    · simp
    · assumption

theorem always_noHang {n : Nat} {is : List PoolStep}
    (h : Along poolStep NotifiesSettled (.start n) is) :
    Always poolStep NoHang (.start n) is := by
  have hstep : ∀ s i, WellFormed s ∧ (s.joining = true → Ending s) → NotifiesSettled s i →
      ∃ s', poolStep s i = some s' ∧ WellFormed s' ∧ (s'.joining = true → Ending s') := by
    rintro s i ⟨hwf, hending⟩ hi
    refine ⟨_, rfl, hwf.after i, fun hj => ?_⟩
    cases hjs : s.joining with
    | true => exact (hending hjs).after hwf i
    | false =>
      by_cases hn : i = .notifyAll
      · subst hn
        cases hexit : s.exit with
        | true => exact (hi hexit hjs).notifyAll hexit hjs
        | false => simp [Pool.after, hexit, hjs] at hj
      · rw [joining_after hjs hn] at hj
        cases hj
  have hstart : (Pool.start n).joining = true → Ending (.start n) := by
    intro hj
    cases hj
  exact (always_of_along hstep ⟨wellFormed_start n, hstart⟩ h).mono
    fun s hs hj => (hs.2 hj).none_waiting

/-! ## The way to a hang -/

theorem hang_of_waiting {s s' : Pool} {js : List PoolStep} (hr : run poolStep s js = some s')
    (hj : s'.joining = true) {w : Nat} (hlt : w < s'.workers) (hw : s'.place w = .waiting) :
    ¬ Always poolStep NoHang s js := by
  intro h
  obtain ⟨s'', hs'', hno⟩ := h.run
  rw [hr] at hs''
  cases hs''
  exact hno hj w hlt hw

/-- A worker at `cond.wait`. -/
theorem hang_of_enters {s : Pool} (hwf : WellFormed s) (hj : s.joining = true) {w : Nat}
    (hw : s.place w = .enters) : ∃ js, ¬ Always poolStep NoHang s js := by
  have hafter : s.after (.wait w) = { s.move w .waiting with mutex := none } := if_pos hw
  refine ⟨[.wait w], hang_of_waiting (w := w) rfl ?_ ?_ ?_⟩
  · rw [hafter]
    exact hj
  · rw [hafter]
    exact hwf.lt (by rw [hw]; simp)
  · rw [hafter]
    simp [Pool.move]

/-- A worker before the mutex that is free. -/
theorem hang_of_locks {s : Pool} (hwf : WellFormed s) (hj : s.joining = true) {w : Nat}
    (hw : s.place w = .locks) (hm : s.mutex = none) : ∃ js, ¬ Always poolStep NoHang s js := by
  have hafter : s.after (.lock w) = { s.move w .enters with mutex := some w } := if_pos ⟨hw, hm⟩
  refine fails_of_step (i := .lock w) (hang_of_enters (w := w) (hwf.after _) ?_ ?_)
  · rw [hafter]
    exact hj
  · rw [hafter]
    simp [Pool.move]

theorem hang_of_between {s : Pool} (hwf : WellFormed s) (hj : s.joining = true) {w : Nat}
    (hw : (s.place w).between) : ∃ js, ¬ Always poolStep NoHang s js := by
  cases hp : s.place w <;> rw [hp] at hw <;> simp only [WorkerAt.between] at hw
  case enters => exact hang_of_enters hwf hj hp
  case locks =>
    cases hm : s.mutex with
    | none => exact hang_of_locks hwf hj hp hm
    | some h =>
      -- the holder enters the wait itself, or gives the mutex back
      have hh := (hwf.holder h).mpr hm
      cases hph : s.place h <;> rw [hph] at hh <;> simp only [WorkerAt.holds] at hh
      case enters => exact hang_of_enters hwf hj hph
      case unlocks =>
        have hafter : s.after (.unlock h) = { s.move h .top with mutex := none } := if_pos hph
        have hne : w ≠ h := by
          rintro rfl
          rw [hp] at hph
          cases hph
        refine fails_of_step (i := .unlock h)
          (hang_of_locks (w := w) (hwf.after _) ?_ ?_ ?_)
        · rw [hafter]
          exact hj
        · rw [hafter]
          simp only [Pool.move, Function.update_of_ne hne]
          exact hp
        · rw [hafter]

/-- More workers about to look for a task than there are tasks. -/
theorem hang_of_trying {k : Nat} : ∀ {s : Pool}, s.queue.length = k → WellFormed s →
    s.joining = true → k < s.trying → ∃ js, ¬ Always poolStep NoHang s js := by
  induction k with
  | zero =>
    intro s hlen hwf hj htrying
    have hqueue : s.queue = [] := List.eq_nil_of_length_eq_zero hlen
    obtain ⟨w, -, hw⟩ := exists_of_countAt_pos htrying
    have hafter : s.after (.tryDequeue w 0) = s.move w .locks := by
      simp only [Pool.after]
      rw [if_pos hw]
      simp [hqueue]
    refine fails_of_step (i := .tryDequeue w 0) (hang_of_between (w := w) (hwf.after _) ?_ ?_)
    · rw [hafter]
      exact hj
    · rw [hafter]
      simp [Pool.move, WorkerAt.between]
  | succ k ih =>
    intro s hlen hwf hj htrying
    obtain ⟨w, -, hw⟩ := exists_of_countAt_pos (Nat.zero_lt_of_lt htrying)
    cases hqueue : s.queue with
    | nil =>
      rw [hqueue] at hlen
      cases hlen
    | cons task queue =>
      have hafter : s.after (.tryDequeue w 0) =
          { s.move w (.executing task) with queue := queue } := by
        simp only [Pool.after]
        rw [if_pos hw]
        simp [hqueue]
      have hcount := trying_dequeue hwf hw (p := .executing task) (by simp)
      refine fails_of_step (i := .tryDequeue w 0) (ih ?_ (hwf.after _) ?_ ?_)
      · rw [hafter]
        rw [hqueue, List.length_cons] at hlen
        exact Nat.succ.inj hlen
      · rw [hafter]
        exact hj
      · rw [hafter]
        show k < (s.move w (.executing task)).trying
        omega

theorem hang_of_not_settled {s : Pool} {i : PoolStep} (hwf : WellFormed s)
    (h : ¬ NotifiesSettled s i) : ∃ js, ¬ Always poolStep NoHang (s.after i) js := by
  cases i with
  | notifyAll =>
    simp only [NotifiesSettled, Classical.not_imp] at h
    obtain ⟨hexit, hj, hnot⟩ := h
    have htrying := trying_notifyAll hexit hj
    have hafter := after_notifyAll hexit hj
    have hj' : (s.after .notifyAll).joining = true := by rw [hafter]
    by_cases hbetween : ∃ w, w < s.workers ∧ (s.place w).between
    · obtain ⟨w, -, hb⟩ := hbetween
      refine hang_of_between (w := w) (hwf.after _) hj' ?_
      rw [hafter]
      simp only
      split
      · rename_i hw
        rw [hw] at hb
        exact hb.elim
      · exact hb
    · refine hang_of_trying rfl (hwf.after _) hj' ?_
      rw [htrying, hafter]
      refine Nat.lt_of_not_le fun htasks => hnot ⟨fun w hw hb => ?_, htasks⟩
      exact hbetween ⟨w, hw, hb⟩
  | _ => exact absurd trivial h

/-- No worker hangs in a run whose `notify_all` comes in a settled state; one that comes in another
can be followed by a hang. -/
theorem noHang_runs (n : Nat) :
    (∀ is, Along poolStep NotifiesSettled (.start n) is → Always poolStep NoHang (.start n) is) ∧
    ∀ is s i, run poolStep (.start n) is = some s → ¬ NotifiesSettled s i →
      ∃ js, ¬ Always poolStep NoHang (.start n) (is ++ i :: js) := by
  refine ⟨fun is h => always_noHang h, fun is s i hs hi => fails_of_run hs ?_⟩
  exact hang_of_not_settled (wellFormed_run (wellFormed_start n) hs) hi

/-- One worker, and the whole destructor between its exit test and its `cond.wait`. -/
theorem notify_before_wait :
    ¬ Always poolStep NoHang (.start 1)
      [.exitTest 0, .setExit, .notifyAll, .tryDequeue 0 0, .lock 0, .wait 0] := by
  intro h
  obtain ⟨s, hs, hno⟩ := h.run
  cases hs
  exact hno rfl 0 Nat.zero_lt_one rfl

end Controller
end Xsky
