/-!
# Kit.Runs

Runs of a step function that may fault, over a list of inputs.

* `run`    — feeds the inputs one after the other; `none` when a step faults.
* `Always` — no step of the run faults and the property holds in every state of it, the first
  and the last included.
* `Along`  — every step of the run meets a condition on its input and the state before it.

`always_of_along` packages the induction for an invariant that a condition on the steps keeps, and
`along_of_along` the one for what the steps themselves do under such an invariant, with
`along_congr` for both directions of it; `always_iff_along_of` adds the other direction to the
first, for a condition that is exact. `run_take_eq_iff` compares two step functions over a whole run.
-/

namespace Kit

variable {σ ι : Type _}

def run (step : σ → ι → Option σ) : σ → List ι → Option σ
  | s, [] => some s
  | s, i :: is =>
    match step s i with
    | none => none
    | some s' => run step s' is

def Always (step : σ → ι → Option σ) (P : σ → Prop) : σ → List ι → Prop
  | s, [] => P s
  | s, i :: is => P s ∧ ∃ s', step s i = some s' ∧ Always step P s' is

def Along (step : σ → ι → Option σ) (C : σ → ι → Prop) : σ → List ι → Prop
  | _, [] => True
  | s, i :: is => C s i ∧ ∀ s', step s i = some s' → Along step C s' is

variable {step : σ → ι → Option σ} {P J : σ → Prop} {C : σ → ι → Prop}

theorem run_cons {s s' : σ} {i : ι} {is : List ι} (h : step s i = some s') :
    run step s (i :: is) = run step s' is := by
  simp [run, h]

theorem run_append {s s' : σ} {is js : List ι} (h : run step s is = some s') :
    run step s (is ++ js) = run step s' js := by
  induction is generalizing s with
  | nil =>
    cases h
    rfl
  | cons i is ih =>
    simp only [run] at h
    split at h
    · cases h
    · rename_i s1 h1
      rw [List.cons_append, run_cons h1]
      exact ih h

theorem Always.head {s : σ} {is : List ι} (h : Always step P s is) : P s := by
  cases is with
  | nil => exact h
  | cons i is => exact h.1

/-- What `Always` says of the state after the whole run. -/
theorem Always.run {s : σ} {is : List ι} (h : Always step P s is) :
    ∃ s', run step s is = some s' ∧ P s' := by
  induction is generalizing s with
  | nil => exact ⟨s, rfl, h⟩
  | cons i is ih =>
    obtain ⟨_, s1, h1, hr⟩ := h
    obtain ⟨s', hs', hP⟩ := ih hr
    exact ⟨s', by rw [run_cons h1]; exact hs', hP⟩

/-- The rest of a run, from the state a first part leads to. -/
theorem Always.drop {s s' : σ} {is js : List ι} (h : Always step P s (is ++ js))
    (hr : Kit.run step s is = some s') : Always step P s' js := by
  induction is generalizing s with
  | nil =>
    cases hr
    exact h
  | cons i is ih =>
    obtain ⟨_, s1, h1, hrest⟩ := h
    rw [run_cons h1] at hr
    exact ih hrest hr

theorem not_always_of_run {s s' : σ} {is : List ι} (hr : Kit.run step s is = some s')
    (hP : ¬ P s') : ¬ Always step P s is := by
  intro h
  obtain ⟨s1, h1, hP1⟩ := h.run
  rw [hr] at h1
  cases h1
  exact hP hP1

theorem not_always_append {s s' : σ} {is js : List ι} (hr : Kit.run step s is = some s')
    (h : ¬ Always step P s' js) : ¬ Always step P s (is ++ js) :=
  fun halways => h (halways.drop hr)

theorem Always.mono {Q : σ → Prop} (hPQ : ∀ s, P s → Q s) {s : σ} {is : List ι}
    (h : Always step P s is) : Always step Q s is := by
  induction is generalizing s with
  | nil => exact hPQ s h
  | cons i is ih =>
    obtain ⟨hP, s1, h1, hr⟩ := h
    exact ⟨hPQ s hP, s1, h1, ih hr⟩

/-- The invariant rule: what holds at the start and is kept by every step that meets the
condition holds along every run whose steps meet it. -/
theorem always_of_along (hstep : ∀ s i, J s → C s i → ∃ s', step s i = some s' ∧ J s') {s : σ}
    {is : List ι} (h0 : J s) (h : Along step C s is) : Always step J s is := by
  induction is generalizing s with
  | nil => exact h0
  | cons i is ih =>
    obtain ⟨s', hs', hJ⟩ := hstep s i h0 h.1
    exact ⟨h0, s', hs', ih hJ (h.2 s' hs')⟩

/-- The invariant in the state such a run reaches. -/
theorem reached_of_along (hstep : ∀ s i, J s → C s i → ∃ s', step s i = some s' ∧ J s') {s s' : σ}
    {is : List ι} (h0 : J s) (h : Along step C s is) (hr : run step s is = some s') : J s' := by
  obtain ⟨s1, h1, hJ⟩ := (always_of_along hstep h0 h).run
  rw [hr] at h1
  cases h1
  exact hJ

/-- The same for what the steps do rather than the states they lead to. -/
theorem along_of_along {D : σ → ι → Prop}
    (hstep : ∀ s i, J s → C s i → D s i ∧ ∀ s', step s i = some s' → J s') {s : σ}
    {is : List ι} (h0 : J s) (h : Along step C s is) : Along step D s is := by
  induction is generalizing s with
  | nil => trivial
  | cons i is ih =>
    obtain ⟨hD, hJ⟩ := hstep s i h0 h.1
    exact ⟨hD, fun s' hs' => ih (hJ s' hs') (h.2 s' hs')⟩

/-- A condition on the inputs alone. -/
theorem along_of_forall {C : ι → Prop} {s : σ} {is : List ι} (h : ∀ i ∈ is, C i) :
    Along step (fun _ => C) s is := by
  induction is generalizing s with
  | nil => trivial
  | cons i is ih =>
    exact ⟨h i List.mem_cons_self, fun s' _ => ih fun j hj => h j (List.mem_cons_of_mem i hj)⟩

/-- Two conditions that say the same of every step along which the invariant is kept. -/
theorem along_congr {D E : σ → ι → Prop}
    (hstep : ∀ s i, J s → E s i → (C s i ↔ D s i) ∧ ∀ s', step s i = some s' → J s') {s : σ}
    {is : List ι} (h0 : J s) (hE : Along step E s is) : Along step C s is ↔ Along step D s is := by
  induction is generalizing s with
  | nil => exact Iff.rfl
  | cons i is ih =>
    obtain ⟨hiff, hJ⟩ := hstep s i h0 hE.1
    constructor
    · intro h
      exact ⟨hiff.mp h.1, fun s' hs' => (ih (hJ s' hs') (hE.2 s' hs')).mp (h.2 s' hs')⟩
    · intro h
      exact ⟨hiff.mpr h.1, fun s' hs' => (ih (hJ s' hs') (hE.2 s' hs')).mpr (h.2 s' hs')⟩

/-- Two step functions lead to the same states, all the way, if and only if they do the same in each
step. -/
theorem run_take_eq_iff {step' : σ → ι → Option σ} {s : σ} {is : List ι} :
    (∀ n, run step s (is.take n) = run step' s (is.take n)) ↔
      Along step (fun s i => step s i = step' s i) s is := by
  induction is generalizing s with
  | nil => exact ⟨fun _ => trivial, fun _ n => by rw [List.take_nil]; rfl⟩
  | cons i is ih =>
    constructor
    · intro h
      have hone : step s i = step' s i := by
        have h1 := h 1
        simp only [List.take_succ_cons, List.take_zero, run] at h1
        cases hs : step s i with
        | none =>
          cases hs' : step' s i with
          | none => rfl
          | some t =>
            rw [hs, hs'] at h1
            cases h1
        | some t =>
          cases hs' : step' s i with
          | none =>
            rw [hs, hs'] at h1
            cases h1
          | some t' =>
            rw [hs, hs'] at h1
            exact h1
      refine ⟨hone, fun s' hs' => ih.mp fun n => ?_⟩
      have hn := h (n + 1)
      rw [List.take_succ_cons, run_cons hs', run_cons (hone.symm.trans hs')] at hn
      exact hn
    · intro h n
      cases n with
      | zero => rfl
      | succ n =>
        rw [List.take_succ_cons]
        cases hs : step s i with
        | none =>
          simp only [run, hs, h.1.symm.trans hs]
        | some s' =>
          rw [run_cons hs, run_cons (h.1.symm.trans hs)]
          exact ih.mpr (h.2 s' hs) n

/-- The exact form, over runs whose steps meet `E`: the condition keeps the invariant, and a step
after which the property still holds met the condition. -/
theorem always_iff_along_of {E : σ → ι → Prop} (hP : ∀ s, J s → P s)
    (hstep : ∀ s i, J s → E s i → C s i → ∃ s', step s i = some s' ∧ J s')
    (hback : ∀ s i s', J s → E s i → step s i = some s' → P s' → C s i) {s : σ} {is : List ι}
    (h0 : J s) (hE : Along step E s is) : Always step P s is ↔ Along step C s is := by
  constructor
  · intro h
    induction is generalizing s with
    | nil => trivial
    | cons i is ih =>
      obtain ⟨_, s1, h1, hr⟩ := h
      have hC : C s i := hback s i s1 h0 hE.1 h1 hr.head
      obtain ⟨s', hs', hJ⟩ := hstep s i h0 hE.1 hC
      rw [h1] at hs'
      cases hs'
      refine ⟨hC, fun s' hs' => ?_⟩
      rw [h1] at hs'
      cases hs'
      exact ih hJ (hE.2 _ h1) hr
  · intro h
    induction is generalizing s with
    | nil => exact hP s h0
    | cons i is ih =>
      obtain ⟨s', hs', hJ⟩ := hstep s i h0 hE.1 h.1
      exact ⟨hP s h0, s', hs', ih hJ (hE.2 s' hs') (h.2 s' hs')⟩

theorem always_iff_along (hP : ∀ s, J s → P s)
    (hstep : ∀ s i, J s → C s i → ∃ s', step s i = some s' ∧ J s')
    (hback : ∀ s i s', J s → step s i = some s' → P s' → C s i) {s : σ} {is : List ι}
    (h0 : J s) : Always step P s is ↔ Along step C s is :=
  always_iff_along_of hP (fun s i h _ => hstep s i h) (fun s i s' h _ => hback s i s' h) h0
    (along_of_forall (C := fun _ => True) fun _ _ => trivial)

end Kit
