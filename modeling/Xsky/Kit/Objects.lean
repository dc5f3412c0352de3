/-!
# Kit.Objects

Objects behind handles. A handle that has not been given out yet has no object, and a call with a
handle that has none is a fault.

* `create` — a new handle, with an object.
* `modify` — changes the object of a handle.
* `free`   — takes the object away.

`create_get` and `free_get` say what any handle has afterwards, `sameBut_modify` that a change
leaves all others alone.
-/

namespace Kit

structure Objects (α : Type) where
  next : Nat
  get : Nat → Option α
  fresh : ∀ h, next ≤ h → get h = none

namespace Objects

variable {α : Type}

/-- No handle has been given out. -/
def start : Objects α := ⟨0, fun _ => none, fun _ _ => rfl⟩

def create (s : Objects α) (a : α) : Nat × Objects α :=
  (s.next,
    { next := s.next + 1
      get := fun h => if h = s.next then some a else s.get h
      fresh := fun h hh => by
        rw [if_neg (by omega)]
        exact s.fresh h (by omega) })

def modify (s : Objects α) (h : Nat) (f : α → α) : Option (Objects α) :=
  if (s.get h).isSome then
    some
      { next := s.next
        get := fun k => if k = h then (s.get h).map f else s.get k
        fresh := fun k hk => by
          split
          · rename_i heq
            rw [← heq, s.fresh k hk]
            rfl
          · exact s.fresh k hk }
  else none

def free (s : Objects α) (h : Nat) : Option (Objects α) :=
  if (s.get h).isSome then
    some
      { next := s.next
        get := fun k => if k = h then none else s.get k
        fresh := fun k hk => by
          split
          · rfl
          · exact s.fresh k hk }
  else none

/-- The handle has an object. -/
def Live (s : Objects α) (h : Nat) : Prop := (s.get h).isSome

theorem Live.ne_next {s : Objects α} {h : Nat} (hlive : s.Live h) : h ≠ s.next := by
  intro heq
  unfold Live at hlive
  rw [heq, s.fresh s.next (Nat.le_refl _)] at hlive
  cases hlive

theorem create_get (s : Objects α) (a : α) (h : Nat) :
    (s.create a).2.get h = if h = s.next then some a else s.get h := rfl

/-- The objects of all other handles are the same. -/
def SameBut (h : Nat) (s s' : Objects α) : Prop := ∀ k, k ≠ h → s'.get k = s.get k

theorem SameBut.refl (h : Nat) (s : Objects α) : SameBut h s s := fun _ _ => rfl

theorem SameBut.trans {h : Nat} {s s' s'' : Objects α} (h1 : SameBut h s s')
    (h2 : SameBut h s' s'') : SameBut h s s'' := by
  intro k hk
  rw [h2 k hk, h1 k hk]

theorem sameBut_modify {s s' : Objects α} {h : Nat} {f : α → α} (hs : s.modify h f = some s') :
    SameBut h s s' := by
  intro k hk
  unfold modify at hs
  split at hs
  · cases hs
    exact if_neg hk
  · cases hs

theorem free_get {s s' : Objects α} {h : Nat} (hs : s.free h = some s') (k : Nat) :
    s'.get k = if k = h then none else s.get k := by
  unfold free at hs
  split at hs
  · cases hs
    rfl
  · cases hs

theorem modify_get {s s' : Objects α} {h : Nat} {f : α → α} (hs : s.modify h f = some s')
    (k : Nat) : s'.get k = if k = h then (s.get k).map f else s.get k := by
  unfold modify at hs
  split at hs
  · cases hs
    simp only
    split
    · rename_i heq
      rw [heq]
    · rfl
  · cases hs

theorem modify_of_live {s : Objects α} {h : Nat} (hlive : s.Live h) (f : α → α) :
    ∃ s', s.modify h f = some s' ∧ s'.next = s.next := by
  unfold modify
  rw [if_pos (show (s.get h).isSome = true from hlive)]
  exact ⟨_, rfl, rfl⟩

theorem modify_next {s s' : Objects α} {h : Nat} {f : α → α} (hs : s.modify h f = some s') :
    s'.next = s.next := by
  unfold modify at hs
  split at hs
  · cases hs
    rfl
  · cases hs

theorem free_next {s s' : Objects α} {h : Nat} (hs : s.free h = some s') : s'.next = s.next := by
  unfold free at hs
  split at hs
  · cases hs
    rfl
  · cases hs

theorem free_of_live {s : Objects α} {h : Nat} (hlive : s.Live h) : ∃ s', s.free h = some s' := by
  unfold free
  rw [if_pos (show (s.get h).isSome = true from hlive)]
  exact ⟨_, rfl⟩

end Objects
end Kit
