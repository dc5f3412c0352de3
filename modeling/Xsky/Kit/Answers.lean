/-!
# Kit.Answers

Machines that answer every input, and simulations between them.

* `answers`   — what a machine that may fault answers to a list of inputs, `none` on a fault.
* `replies`   — the same for a machine that never does.
* `Simulates` — a relation along which the first does in each step what the second does.

`Simulates.answers`: over a whole run the first answers what the second answers, and neither a fault
nor a state out of the relation is ever reached.
-/

namespace Kit

variable {σ τ ι ο : Type _}

def answers (step : σ → ι → Option (ο × σ)) : σ → List ι → Option (List ο × σ)
  | s, [] => some ([], s)
  | s, i :: is =>
    match step s i with
    | none => none
    | some (o, s') => (answers step s' is).map fun (os, s'') => (o :: os, s'')

def replies (step : τ → ι → ο × τ) : τ → List ι → List ο × τ
  | t, [] => ([], t)
  | t, i :: is =>
    let (o, t') := step t i
    let (os, t'') := replies step t' is
    (o :: os, t'')

/-- On the inputs with a property. -/
def SimulatesOn (C : ι → Prop) (step : σ → ι → Option (ο × σ)) (spec : τ → ι → ο × τ)
    (R : σ → τ → Prop) : Prop :=
  ∀ s t i, C i → R s t → ∃ s', step s i = some ((spec t i).1, s') ∧ R s' (spec t i).2

def Simulates (step : σ → ι → Option (ο × σ)) (spec : τ → ι → ο × τ) (R : σ → τ → Prop) : Prop :=
  ∀ s t i, R s t → ∃ s', step s i = some ((spec t i).1, s') ∧ R s' (spec t i).2

variable {step : σ → ι → Option (ο × σ)} {spec : τ → ι → ο × τ} {R : σ → τ → Prop} {C : ι → Prop}

theorem SimulatesOn.answers (h : SimulatesOn C step spec R) {s : σ} {t : τ} (hst : R s t)
    {is : List ι} (his : ∀ i ∈ is, C i) :
    ∃ s', Kit.answers step s is = some ((replies spec t is).1, s') ∧ R s' (replies spec t is).2 := by
  induction is generalizing s t with
  | nil => exact ⟨s, rfl, hst⟩
  | cons i is ih =>
    obtain ⟨s1, hs1, h1⟩ := h s t i (his i List.mem_cons_self) hst
    obtain ⟨s2, hs2, h2⟩ := ih h1 fun j hj => his j (List.mem_cons_of_mem i hj)
    refine ⟨s2, ?_, h2⟩
    simp only [Kit.answers, hs1, hs2, Option.map_some, replies]

theorem Simulates.answers (h : Simulates step spec R) {s : σ} {t : τ} (hst : R s t)
    (is : List ι) :
    ∃ s', Kit.answers step s is = some ((replies spec t is).1, s') ∧ R s' (replies spec t is).2 :=
  SimulatesOn.answers (C := fun _ => True) (fun s t i _ => h s t i) hst fun _ _ => trivial

end Kit
