import Xsky.Kit.Runs
import Xsky.Kit.Phases

/-!
# Controller.TaskPool

`task_pool`: workers that take tasks from a queue and sleep on a condition variable when there are
none, a `push` that enqueues and then notifies, and a destructor that sets `exit`, notifies all and
joins. Each is cut into its atomic steps; only the workers take the mutex.

* `Pool.after` — the pool after one step of one of the threads.
* `WellFormed` — the mutex is held by the one worker that is inside its section, and no worker but
  those of the pool is anywhere; `wellFormed_run`: so it is in every state of every run.
-/

namespace Xsky
namespace Controller

open Kit

/-- Where a worker is in `execute`. -/
inductive WorkerAt where
  | top      -- before `while ( !exit )`
  | tries    -- before `try_dequeue`
  | locks    -- before `lock( mutex )`
  | enters   -- with the mutex, before `cond.wait`
  | waiting  -- blocked in `cond.wait`
  | woken    -- in `cond.wait`, before it takes the mutex again
  | unlocks  -- behind `cond.wait`, with the mutex and no task
  | executing (task : Nat)
  | ended
deriving DecidableEq

structure Pool where
  workers : Nat
  place : Nat → WorkerAt
  queue : List Nat
  /-- The calls of `push` between `enqueue` and `notify_one`. -/
  notifying : Nat
  mutex : Option Nat
  exit : Bool
  /-- The destructor is behind `notify_all`. -/
  joining : Bool

def Pool.start (n : Nat) : Pool :=
  ⟨n, fun w => if w < n then .top else .ended, [], 0, none, false, false⟩

inductive PoolStep where
  | enqueue (task : Nat)
  | notifyOne (w : Nat)
  | exitTest (w : Nat)
  | tryDequeue (w i : Nat)
  | lock (w : Nat)
  | wait (w : Nat)
  | spurious (w : Nat)
  | relock (w : Nat)
  | unlock (w : Nat)
  | execute (w : Nat)
  | setExit
  | notifyAll

namespace Pool

def move (s : Pool) (w : Nat) (p : WorkerAt) : Pool :=
  { s with place := Function.update s.place w p }

def waiters (s : Pool) : Nat := countAt (· = .waiting) s.place s.workers

/-- `notify_one` wakes a worker of the implementation's choice, and the queue hands out any of its
tasks. A step of a thread that is not at that point leaves the pool as it is. -/
def after (s : Pool) : PoolStep → Pool
  | .enqueue task => { s with queue := s.queue ++ [task], notifying := s.notifying + 1 }
  | .notifyOne w =>
    if s.notifying = 0 then s
    else if s.place w = .waiting then { s.move w .woken with notifying := s.notifying - 1 }
    else if s.waiters = 0 then { s with notifying := s.notifying - 1 }
    else s
  | .exitTest w =>
    if s.place w = .top then s.move w (if s.exit then .ended else .tries) else s
  | .tryDequeue w i =>
    if s.place w = .tries then
      match s.queue[i]? with
      | some task => { s.move w (.executing task) with queue := s.queue.eraseIdx i }
      | none => if s.queue = [] then s.move w .locks else s
    else s
  | .lock w =>
    if s.place w = .locks ∧ s.mutex = none then { s.move w .enters with mutex := some w } else s
  | .wait w => if s.place w = .enters then { s.move w .waiting with mutex := none } else s
  | .spurious w => if s.place w = .waiting then s.move w .woken else s
  | .relock w =>
    if s.place w = .woken ∧ s.mutex = none then { s.move w .unlocks with mutex := some w } else s
  | .unlock w => if s.place w = .unlocks then { s.move w .top with mutex := none } else s
  | .execute w =>
    match s.place w with
    | .executing _ => s.move w .top
    | _ => s
  | .setExit => { s with exit := true }
  | .notifyAll =>
    if s.exit = true ∧ s.joining = false then
      { s with
        place := fun w => if s.place w = .waiting then .woken else s.place w
        joining := true }
    else s

end Pool

def poolStep (s : Pool) (i : PoolStep) : Option Pool := some (s.after i)

/-- Inside the section of the mutex. -/
def WorkerAt.holds : WorkerAt → Prop
  | .enters => True
  | .unlocks => True
  | _ => False

structure WellFormed (s : Pool) : Prop where
  outside : ∀ w, s.workers ≤ w → s.place w = .ended
  holder : ∀ w, (s.place w).holds ↔ s.mutex = some w

theorem wellFormed_start (n : Nat) : WellFormed (.start n) where
  outside w hw := by
    have hw' : n ≤ w := hw
    simp only [Pool.start]
    rw [if_neg (Nat.not_lt.mpr hw')]
  holder w := by
    simp only [Pool.start]
    split <;> simp [WorkerAt.holds]

/-- A move of a worker that has not ended leaves the places past the workers ended. -/
theorem WellFormed.move_outside {s : Pool} (h : WellFormed s) {w v : Nat} {p : WorkerAt}
    (hw : s.place w ≠ .ended) (hv : s.workers ≤ v) : (s.move w p).place v = .ended := by
  have hvw : v ≠ w := by
    intro heq
    subst heq
    exact hw (h.outside v hv)
  simp only [Pool.move, Function.update_of_ne hvw]
  exact h.outside v hv

/-- A worker that goes from one place to another, neither or both of them in the section. -/
theorem WellFormed.move {s : Pool} (h : WellFormed s) {w : Nat} {p : WorkerAt}
    (hw : s.place w ≠ .ended) (hp : p.holds ↔ (s.place w).holds) : WellFormed (s.move w p) where
  outside v := h.move_outside hw
  holder v := by
    by_cases hvw : v = w
    · subst hvw
      simp only [Pool.move, Function.update_self]
      rw [hp]
      exact h.holder v
    · simp only [Pool.move, Function.update_of_ne hvw]
      exact h.holder v

theorem WellFormed.enter {s : Pool} (h : WellFormed s) {w : Nat} {p : WorkerAt}
    (hw : s.place w ≠ .ended) (hp : p.holds) (hm : s.mutex = none) :
    WellFormed { s.move w p with mutex := some w } where
  outside v := h.move_outside hw
  holder v := by
    by_cases hvw : v = w
    · subst hvw
      simp [Pool.move, hp]
    · have hv := h.holder v
      rw [hm] at hv
      simp only [Pool.move, Function.update_of_ne hvw, Option.some.injEq, hv]
      constructor
      · intro hn
        cases hn
      · intro hn
        exact absurd hn.symm hvw

theorem WellFormed.leave {s : Pool} (h : WellFormed s) {w : Nat} {p : WorkerAt}
    (hw : (s.place w).holds) (hp : ¬ p.holds) :
    WellFormed { s.move w p with mutex := none } where
  outside v := h.move_outside fun hend => by
    rw [hend] at hw
    exact hw
  holder v := by
    have hmutex := (h.holder w).mp hw
    by_cases hvw : v = w
    · subst hvw
      simp [Pool.move, hp]
    · have hv := h.holder v
      rw [hmutex, Option.some.injEq] at hv
      simp only [Pool.move, Function.update_of_ne hvw, hv]
      constructor
      · intro hn
        exact absurd hn.symm hvw
      · intro hn
        cases hn

theorem WellFormed.after {s : Pool} (h : WellFormed s) (i : PoolStep) : WellFormed (s.after i) := by
  cases i with
  | enqueue task => exact ⟨h.outside, h.holder⟩
  | notifyOne w =>
    simp only [Pool.after]
    split
    · exact h
    · split
      · rename_i hw
        have h' : WellFormed (s.move w .woken) :=
          h.move (by rw [hw]; simp) (by rw [hw]; simp [WorkerAt.holds])
        exact ⟨h'.outside, h'.holder⟩
      · split
        · exact ⟨h.outside, h.holder⟩
        · exact h
  | exitTest w =>
    simp only [Pool.after]
    split
    · rename_i hw
      refine h.move (by rw [hw]; simp) ?_
      rw [hw]
      split <;> simp [WorkerAt.holds]
    · exact h
  | tryDequeue w i =>
    simp only [Pool.after]
    split
    · rename_i hw
      split
      · rename_i task _
        have h' : WellFormed (s.move w (.executing task)) :=
          h.move (by rw [hw]; simp) (by rw [hw]; simp [WorkerAt.holds])
        exact ⟨h'.outside, h'.holder⟩
      · split
        · exact h.move (by rw [hw]; simp) (by rw [hw]; simp [WorkerAt.holds])
        · exact h
    · exact h
  | lock w =>
    simp only [Pool.after]
    split
    · rename_i hw
      exact h.enter (by rw [hw.1]; simp) trivial hw.2
    · exact h
  | wait w =>
    simp only [Pool.after]
    split
    · rename_i hw
      exact h.leave (by rw [hw]; trivial) (by simp [WorkerAt.holds])
    · exact h
  | spurious w =>
    simp only [Pool.after]
    split
    · rename_i hw
      exact h.move (by rw [hw]; simp) (by rw [hw]; simp [WorkerAt.holds])
    · exact h
  | relock w =>
    simp only [Pool.after]
    split
    · rename_i hw
      exact h.enter (by rw [hw.1]; simp) trivial hw.2
    · exact h
  | unlock w =>
    simp only [Pool.after]
    split
    · rename_i hw
      exact h.leave (by rw [hw]; trivial) (by simp [WorkerAt.holds])
    · exact h
  | execute w =>
    simp only [Pool.after]
    split
    · rename_i hw
      exact h.move (by rw [hw]; simp) (by rw [hw]; simp [WorkerAt.holds])
    · exact h
  | setExit => exact ⟨h.outside, h.holder⟩
  | notifyAll =>
    simp only [Pool.after]
    split
    · refine ⟨fun w hw => ?_, fun w => ?_⟩
      · simp only [h.outside w hw]
        rfl
      · simp only
        split
        · rename_i hw
          have := h.holder w
          rw [hw] at this
          exact this
        · exact h.holder w
    · exact h

theorem wellFormed_run {s s' : Pool} (h : WellFormed s) {is : List PoolStep}
    (hr : run poolStep s is = some s') : WellFormed s' := by
  induction is generalizing s with
  | nil =>
    cases hr
    exact h
  | cons i is ih => exact ih (h.after i) hr

theorem run_after (s : Pool) (i : PoolStep) : run poolStep s [i] = some (s.after i) := rfl

/-- A run that fails behind a step fails from before it. -/
theorem fails_of_step {P : Pool → Prop} {s : Pool} {i : PoolStep}
    (h : ∃ js, ¬ Always poolStep P (s.after i) js) : ∃ js, ¬ Always poolStep P s js := by
  obtain ⟨js, hjs⟩ := h
  exact ⟨i :: js, not_always_append (run_after s i) hjs⟩

theorem fails_of_run {P : Pool → Prop} {s s' : Pool} {is : List PoolStep} {i : PoolStep}
    (hr : run poolStep s is = some s') (h : ∃ js, ¬ Always poolStep P (s'.after i) js) :
    ∃ js, ¬ Always poolStep P s (is ++ i :: js) := by
  obtain ⟨js, hjs⟩ := h
  exact ⟨js, not_always_append hr (not_always_append (run_after s' i) hjs)⟩

end Controller
end Xsky
