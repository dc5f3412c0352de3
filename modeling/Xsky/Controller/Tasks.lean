import Xsky.Controller.Wakeup

/-!
# Controller.Tasks

What becomes of the tasks pushed on `task_pool`.

`Ledger` is the pool with the tasks pushed and the tasks executed so far. `Balanced`: each task was
pushed as often as it was executed, is at a worker or is in the queue.

* `tasks_balanced` — so it is in every state of every run, and once the workers have ended each
  task pushed was executed or is left in the queue.
* `exit_bounds_tasks` — behind `exit = true` no more tasks are executed than workers were between
  their exit test and the end of their task.
-/

namespace Xsky
namespace Controller

open Kit

structure Ledger where
  pool : Pool
  pushed : List Nat
  executed : List Nat

def Ledger.start (n : Nat) : Ledger := ⟨.start n, [], []⟩

/-- The task the step hands to the queue. -/
def PoolStep.pushes : PoolStep → List Nat
  | .enqueue task => [task]
  | _ => []

/-- The task the step executes. -/
def Pool.executes (s : Pool) : PoolStep → List Nat
  | .execute w =>
    match s.place w with
    | .executing task => [task]
    | _ => []
  | _ => []

def Ledger.after (l : Ledger) (i : PoolStep) : Ledger :=
  ⟨l.pool.after i, l.pushed ++ i.pushes, l.executed ++ l.pool.executes i⟩

def Ledger.all (l : Ledger) (is : List PoolStep) : Ledger := is.foldl Ledger.after l

/-! ## What a step does -/

/-- Where a worker that has no task goes from where it is. -/
inductive Follows (exit : Bool) : WorkerAt → WorkerAt → Prop where
  | ends : exit = true → Follows exit .top .ended
  | tries : exit = false → Follows exit .top .tries
  | locks : Follows exit .tries .locks
  | enters : Follows exit .locks .enters
  | waits : Follows exit .enters .waiting
  | wakes : Follows exit .waiting .woken
  | unlocks : Follows exit .woken .unlocks
  | again : Follows exit .unlocks .top

/-- What a step does to the places and the queue. -/
inductive Does (s : Pool) (i : PoolStep) : Prop where
  | nothing (pushes : i.pushes = []) (executes : s.executes i = [])
      (place : (s.after i).place = s.place) (queue : (s.after i).queue = s.queue)
  | moves (w : Nat) (p : WorkerAt) (follows : Follows s.exit (s.place w) p)
      (pushes : i.pushes = []) (executes : s.executes i = [])
      (place : (s.after i).place = Function.update s.place w p) (queue : (s.after i).queue = s.queue)
  | enqueues (task : Nat) (pushes : i.pushes = [task]) (executes : s.executes i = [])
      (place : (s.after i).place = s.place) (queue : (s.after i).queue = s.queue ++ [task])
  | dequeues (w task : Nat) (tries : s.place w = .tries) (pushes : i.pushes = [])
      (executes : s.executes i = [])
      (place : (s.after i).place = Function.update s.place w (.executing task))
      (queue : s.queue.Perm (task :: (s.after i).queue))
  | executes (w task : Nat) (executing : s.place w = .executing task) (pushes : i.pushes = [])
      (executes : s.executes i = [task]) (place : (s.after i).place = Function.update s.place w .top)
      (queue : (s.after i).queue = s.queue)
  | wakes (pushes : i.pushes = []) (executes : s.executes i = [])
      (place : ∀ w, (s.after i).place w = if s.place w = .waiting then .woken else s.place w)
      (queue : (s.after i).queue = s.queue)

section

variable {s : Pool}

theorem workers_after (s : Pool) (i : PoolStep) : (s.after i).workers = s.workers := by
  cases i <;> simp only [Pool.after, Pool.move] <;> repeat (first | rfl | split)

theorem exit_stays (h : s.exit = true) (i : PoolStep) : (s.after i).exit = true := by
  cases i <;> simp only [Pool.after, Pool.move] <;> repeat (first | exact h | rfl | split)

theorem does_nothing {i : PoolStep} (pushes : i.pushes = []) (executes : s.executes i = [])
    (h : s.after i = s) : Does s i := .nothing pushes executes (by rw [h]) (by rw [h])

theorem does_move {i : PoolStep} {w : Nat} {q p : WorkerAt} (hw : s.place w = q)
    (follows : Follows s.exit q p) (m : Option Nat) (n : Nat) (pushes : i.pushes = [])
    (executes : s.executes i = [])
    (h : s.after i = { s.move w p with mutex := m, notifying := n }) : Does s i := by
  subst hw
  exact .moves w p follows pushes executes (by rw [h]; rfl) (by rw [h]; rfl)

theorem does_dequeue {w i : Nat} (hw : s.place w = .tries) : Does s (.tryDequeue w i) := by
  cases htask : s.queue[i]? with
  | some task =>
    obtain ⟨hi, rfl⟩ := List.getElem?_eq_some_iff.mp htask
    have hafter : s.after (.tryDequeue w i) =
        { s.move w (.executing s.queue[i]) with queue := s.queue.eraseIdx i } := by
      simp only [Pool.after, if_pos hw, htask]
    refine .dequeues w s.queue[i] hw rfl rfl (by rw [hafter]; rfl) ?_
    rw [hafter]
    exact (List.getElem_cons_eraseIdx_perm hi).symm
  | none =>
    by_cases hempty : s.queue = []
    · exact does_move hw .locks s.mutex s.notifying rfl rfl
        (by simp only [Pool.after, if_pos hw, htask, if_pos hempty]; rfl)
    · exact does_nothing rfl rfl (by simp only [Pool.after, if_pos hw, htask, if_neg hempty])

theorem does (s : Pool) (i : PoolStep) : Does s i := by
  cases i with
  | enqueue task => exact .enqueues task rfl rfl rfl rfl
  | notifyOne w =>
    by_cases hnone : s.notifying = 0
    · exact does_nothing rfl rfl (by simp only [Pool.after, if_pos hnone])
    by_cases hw : s.place w = .waiting
    · exact does_move hw .wakes s.mutex (s.notifying - 1) rfl rfl
        (by simp only [Pool.after, if_neg hnone, if_pos hw]; rfl)
    · refine .nothing rfl rfl ?_ ?_
      · simp only [Pool.after, if_neg hnone, if_neg hw]
        split <;> rfl
      · simp only [Pool.after, if_neg hnone, if_neg hw]
        split <;> rfl
  | exitTest w =>
    by_cases hw : s.place w = .top
    · cases hexit : s.exit with
      | true =>
        exact does_move hw (.ends hexit) s.mutex s.notifying rfl rfl
          (by simp only [Pool.after, if_pos hw, hexit]; rfl)
      | false =>
        exact does_move hw (.tries hexit) s.mutex s.notifying rfl rfl
          (by simp only [Pool.after, if_pos hw, hexit]; rfl)
    · exact does_nothing rfl rfl (by simp only [Pool.after, if_neg hw])
  | tryDequeue w i =>
    by_cases hw : s.place w = .tries
    · exact does_dequeue hw
    · exact does_nothing rfl rfl (by simp only [Pool.after, if_neg hw])
  | lock w =>
    by_cases hw : s.place w = .locks ∧ s.mutex = none
    · exact does_move hw.1 .enters (some w) s.notifying rfl rfl
        (by simp only [Pool.after, if_pos hw]; rfl)
    · exact does_nothing rfl rfl (by simp only [Pool.after, if_neg hw])
  | wait w =>
    by_cases hw : s.place w = .enters
    · exact does_move hw .waits none s.notifying rfl rfl
        (by simp only [Pool.after, if_pos hw]; rfl)
    · exact does_nothing rfl rfl (by simp only [Pool.after, if_neg hw])
  | spurious w =>
    by_cases hw : s.place w = .waiting
    · exact does_move hw .wakes s.mutex s.notifying rfl rfl
        (by simp only [Pool.after, if_pos hw]; rfl)
    · exact does_nothing rfl rfl (by simp only [Pool.after, if_neg hw])
  | relock w =>
    by_cases hw : s.place w = .woken ∧ s.mutex = none
    · exact does_move hw.1 .unlocks (some w) s.notifying rfl rfl
        (by simp only [Pool.after, if_pos hw]; rfl)
    · exact does_nothing rfl rfl (by simp only [Pool.after, if_neg hw])
  | unlock w =>
    by_cases hw : s.place w = .unlocks
    · exact does_move hw .again none s.notifying rfl rfl
        (by simp only [Pool.after, if_pos hw]; rfl)
    · exact does_nothing rfl rfl (by simp only [Pool.after, if_neg hw])
  | execute w =>
    cases hw : s.place w with
    | executing task =>
      have hafter : s.after (.execute w) = s.move w .top := by simp only [Pool.after, hw]
      exact .executes w task hw rfl (by simp only [Pool.executes, hw]) (by rw [hafter]; rfl)
        (by rw [hafter]; rfl)
    | _ => exact does_nothing rfl (by simp only [Pool.executes, hw]) (by simp only [Pool.after, hw])
  | setExit => exact .nothing rfl rfl rfl rfl
  | notifyAll =>
    by_cases hexit : s.exit = true ∧ s.joining = false
    · refine .wakes rfl rfl (fun w => ?_) ?_
      · simp only [Pool.after, if_pos hexit]
      · simp only [Pool.after, if_pos hexit]
    · exact does_nothing rfl rfl (by simp only [Pool.after, if_neg hexit])

/-! ## Each task -/

/-- How many workers are at the task. -/
def Pool.holders (s : Pool) (task : Nat) : Nat :=
  countAt (· = .executing task) s.place s.workers

theorem Follows.not_ended {exit : Bool} {p q : WorkerAt} (h : Follows exit p q) : p ≠ .ended := by
  cases h <;> simp

theorem Follows.no_task {exit : Bool} {p q : WorkerAt} (h : Follows exit p q) (task : Nat) :
    p ≠ .executing task ∧ q ≠ .executing task := by
  cases h <;> simp

/-- The step hands tasks on: it drops none and makes none up. -/
theorem handed_on (hwf : WellFormed s) (i : PoolStep) (task : Nat) :
    i.pushes.count task + s.holders task + s.queue.count task =
      (s.executes i).count task + (s.after i).holders task + (s.after i).queue.count task := by
  unfold Pool.holders
  rw [workers_after]
  cases does s i with
  | nothing pushes executes place queue => rw [pushes, executes, place, queue]
  | moves w p follows pushes executes place queue =>
    have hcount := countAt_update (p := (· = WorkerAt.executing task)) s.place p
      (hwf.lt follows.not_ended)
    rw [if_neg (follows.no_task task).1, if_neg (follows.no_task task).2] at hcount
    rw [Nat.add_zero, Nat.add_zero] at hcount
    rw [pushes, executes, place, queue, hcount]
  | enqueues t pushes executes place queue =>
    rw [pushes, executes, place, queue, List.count_append, List.count_nil]
    omega
  | dequeues w t tries pushes executes place queue =>
    have hcount := countAt_update (p := (· = WorkerAt.executing task)) s.place (.executing t)
      (hwf.lt (w := w) (by rw [tries]; simp))
    have hperm := queue.count_eq task
    rw [pushes, executes, place]
    rw [tries, if_neg (by simp)] at hcount
    simp only [WorkerAt.executing.injEq] at hcount
    simp only [List.count_cons, beq_iff_eq] at hperm
    omega
  | executes w t executing pushes executes place queue =>
    have hcount := countAt_update (p := (· = WorkerAt.executing task)) s.place .top
      (hwf.lt (w := w) (by rw [executing]; simp))
    rw [pushes, executes, place, queue]
    rw [executing, if_neg (by simp : WorkerAt.top ≠ .executing task)] at hcount
    simp only [WorkerAt.executing.injEq] at hcount
    simp only [List.count_singleton, List.count_nil, beq_iff_eq]
    omega
  | wakes pushes executes place queue =>
    have hsame := countAt_congr (p := (· = WorkerAt.executing task)) (f := (s.after i).place)
      (g := s.place) (n := s.workers) fun w _ => by
        rw [place w]
        by_cases hw : s.place w = .waiting
        · simp [hw]
        · simp [hw]
    rw [pushes, executes, queue, hsame]

structure Balanced (l : Ledger) : Prop where
  wellFormed : WellFormed l.pool
  tasks : ∀ task, l.pushed.count task =
    l.executed.count task + l.pool.holders task + l.pool.queue.count task

theorem balanced_start (n : Nat) : Balanced (.start n) where
  wellFormed := wellFormed_start n
  tasks task := by
    have hnone : (Pool.start n).holders task = 0 := by
      apply countAt_none
      intro w _
      simp only [Pool.start]
      split <;> simp
    rw [Ledger.start, hnone]
    rfl

theorem Balanced.after {l : Ledger} (h : Balanced l) (i : PoolStep) : Balanced (l.after i) where
  wellFormed := h.wellFormed.after i
  tasks task := by
    have hstep := handed_on h.wellFormed i task
    have htasks := h.tasks task
    simp only [Ledger.after, List.count_append]
    omega

theorem Balanced.all {l : Ledger} (h : Balanced l) (is : List PoolStep) : Balanced (l.all is) := by
  induction is generalizing l with
  | nil => exact h
  | cons i is ih => exact ih (h.after i)

/-- Whatever the workers, the pushers and the destructor do in whatever order, each task was pushed
as often as it was executed, is held by a worker and is in the queue; and what was pushed is what
was executed and what is left in the queue when the workers have ended. -/
theorem tasks_balanced (n : Nat) (is : List PoolStep) :
    (∀ task, ((Ledger.start n).all is).pushed.count task =
      ((Ledger.start n).all is).executed.count task +
        ((Ledger.start n).all is).pool.holders task +
        ((Ledger.start n).all is).pool.queue.count task) ∧
      ((∀ w, ((Ledger.start n).all is).pool.place w = .ended) →
        ((Ledger.start n).all is).pushed.Perm
          (((Ledger.start n).all is).executed ++ ((Ledger.start n).all is).pool.queue)) := by
  have h := (balanced_start n).all is
  refine ⟨h.tasks, fun hended => List.perm_iff_count.mpr fun task => ?_⟩
  have hnone : ((Ledger.start n).all is).pool.holders task = 0 := by
    apply countAt_none
    intro w _
    rw [hended w]
    simp
  rw [h.tasks task, hnone, List.count_append]
  rfl

/-! ## Behind exit -/

/-- Behind the exit test, with the task not looked for or not done. -/
def WorkerAt.busy : WorkerAt → Bool
  | .tries => true
  | .executing _ => true
  | _ => false

def Pool.busy (s : Pool) : Nat := countAt (·.busy = true) s.place s.workers

theorem Follows.not_busy {exit : Bool} {p q : WorkerAt} (h : Follows exit p q)
    (hexit : exit = true) : q.busy = false := by
  cases h with
  | tries hf =>
    rw [hexit] at hf
    cases hf
  | _ => rfl

theorem executes_busy (hwf : WellFormed s) (hexit : s.exit = true) (i : PoolStep) :
    (s.executes i).length + (s.after i).busy ≤ s.busy := by
  unfold Pool.busy
  rw [workers_after]
  cases does s i with
  | nothing pushes executes place queue =>
    rw [executes, place]
    simp
  | moves w p follows pushes executes place queue =>
    have hcount := countAt_update (p := (·.busy = true)) s.place p (hwf.lt follows.not_ended)
    rw [follows.not_busy hexit, if_neg (by simp : ¬ (false = true))] at hcount
    rw [executes, place, List.length_nil]
    omega
  | enqueues t pushes executes place queue =>
    rw [executes, place]
    simp
  | dequeues w t tries pushes executes place queue =>
    have hcount := countAt_update (p := (·.busy = true)) s.place (.executing t)
      (hwf.lt (w := w) (by rw [tries]; simp))
    have hw : (s.place w).busy = true := by rw [tries]; rfl
    have ht : (WorkerAt.executing t).busy = true := rfl
    rw [if_pos hw, if_pos ht] at hcount
    rw [executes, place, List.length_nil]
    omega
  | executes w t executing pushes executes place queue =>
    have hcount := countAt_update (p := (·.busy = true)) s.place .top
      (hwf.lt (w := w) (by rw [executing]; simp))
    have hw : (s.place w).busy = true := by rw [executing]; rfl
    have htop : ¬ WorkerAt.top.busy = true := by simp [WorkerAt.busy]
    rw [if_pos hw, if_neg htop] at hcount
    rw [executes, place, List.length_singleton]
    omega
  | wakes pushes executes place queue =>
    have hsame := countAt_congr (p := (·.busy = true)) (f := (s.after i).place)
      (g := s.place) (n := s.workers) fun w _ => by
        rw [place w]
        by_cases hw : s.place w = .waiting
        · simp [hw, WorkerAt.busy]
        · simp [hw]
    rw [executes, hsame]
    simp

theorem executed_after_exit {l : Ledger} (hwf : WellFormed l.pool) (hexit : l.pool.exit = true)
    (is : List PoolStep) :
    (l.all is).executed.length + (l.all is).pool.busy ≤ l.executed.length + l.pool.busy := by
  induction is generalizing l with
  | nil => exact Nat.le_refl _
  | cons i is ih =>
    have hrest := ih (l := l.after i) (hwf.after i) (exit_stays hexit i)
    have hstep := executes_busy hwf hexit i
    have hlen : (l.after i).executed.length = l.executed.length + (l.pool.executes i).length :=
      List.length_append
    have hpool : (l.after i).pool = l.pool.after i := rfl
    rw [hlen, hpool] at hrest
    exact Nat.le_trans hrest (by omega)

/-- From `exit = true` on, every worker executes at most the one task it is looking for or has, and
no worker starts to look for one: a destructor that joins waits for no more than these. -/
theorem exit_bounds_tasks (n : Nat) (is js : List PoolStep)
    (hexit : ((Ledger.start n).all is).pool.exit = true) :
    (((Ledger.start n).all is).all js).executed.length ≤
      ((Ledger.start n).all is).executed.length + ((Ledger.start n).all is).pool.busy := by
  have h := executed_after_exit ((balanced_start n).all is).wellFormed hexit js
  omega

theorem exit_bounds_task :
    let l := (Ledger.start 1).all [.exitTest 0, .enqueue 5, .enqueue 6, .setExit]
    (l.all [.tryDequeue 0 0, .execute 0, .exitTest 0]).executed.length ≤
      l.executed.length + l.pool.busy :=
  exit_bounds_tasks 1 [.exitTest 0, .enqueue 5, .enqueue 6, .setExit]
    [.tryDequeue 0 0, .execute 0, .exitTest 0] rfl

end

end Controller
end Xsky
