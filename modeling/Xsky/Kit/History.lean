/-!
# Kit.History

A value changed by commands that can be taken back, and the versions such a history should stand
for.

* `History`  — the value, the commands done, last first, and those taken back, next first. A command
  may keep what it needs to be taken back when it is carried out.
* `Versions` — the values themselves, before, now and after.
* `Reverts`  — from one value a command leads to another, and back.

`Matches` relates the two. `Matches.undo` and `Matches.redo` keep it without further conditions, and
`Matches.push` needs that the command reverts from the present value.
-/

namespace Kit

variable {σ κ : Type _}

/-- What commands do. -/
structure Commands (σ κ : Type _) where
  redo : κ → σ → κ × σ
  undo : κ → σ → σ

structure History (σ κ : Type _) where
  value : σ
  done : List κ
  undone : List κ

structure Versions (σ : Type _) where
  past : List σ
  present : σ
  future : List σ

namespace History

variable (c : Commands σ κ)

/-- What was taken back is dropped. -/
def push (k : κ) (h : History σ κ) : History σ κ :=
  let (k', value) := c.redo k h.value
  ⟨value, k' :: h.done, []⟩

def undo (h : History σ κ) : History σ κ :=
  match h.done with
  | [] => h
  | k :: done => ⟨c.undo k h.value, done, k :: h.undone⟩

def redo (h : History σ κ) : History σ κ :=
  match h.undone with
  | [] => h
  | k :: undone =>
    let (k', value) := c.redo k h.value
    ⟨value, k' :: h.done, undone⟩

end History

namespace Versions

def push (x : σ) (v : Versions σ) : Versions σ := ⟨v.present :: v.past, x, []⟩

def undo (v : Versions σ) : Versions σ :=
  match v.past with
  | [] => v
  | x :: past => ⟨past, x, v.present :: v.future⟩

def redo (v : Versions σ) : Versions σ :=
  match v.future with
  | [] => v
  | x :: future => ⟨v.present :: v.past, x, future⟩

end Versions

structure Reverts (c : Commands σ κ) (k : κ) (x y : σ) : Prop where
  redo : c.redo k x = (k, y)
  undo : c.undo k y = x

/-- The commands done lead back from the present value through the past ones. -/
inductive Back (c : Commands σ κ) : List κ → List σ → σ → Prop where
  | nil {x : σ} : Back c [] [] x
  | cons {k : κ} {ks : List κ} {x y : σ} {xs : List σ} :
      Reverts c k x y → Back c ks xs x → Back c (k :: ks) (x :: xs) y

/-- The commands taken back lead on from the present value. -/
inductive Forth (c : Commands σ κ) : List κ → List σ → σ → Prop where
  | nil {x : σ} : Forth c [] [] x
  | cons {k : κ} {ks : List κ} {x y : σ} {xs : List σ} :
      Reverts c k x y → Forth c ks xs y → Forth c (k :: ks) (y :: xs) x

structure Matches (c : Commands σ κ) (h : History σ κ) (v : Versions σ) : Prop where
  value : h.value = v.present
  done : Back c h.done v.past v.present
  undone : Forth c h.undone v.future v.present

variable {c : Commands σ κ} {h : History σ κ} {v : Versions σ}

theorem Matches.start (x : σ) : Matches c ⟨x, [], []⟩ ⟨[], x, []⟩ := ⟨rfl, .nil, .nil⟩

theorem Matches.push (hm : Matches c h v) {k : κ} {y : σ}
    (hk : Reverts c (c.redo k v.present).1 v.present y) (hy : (c.redo k v.present).2 = y) :
    Matches c (h.push c k) (v.push y) := by
  unfold History.push
  rw [hm.value]
  exact ⟨hy, .cons hk hm.done, .nil⟩

theorem Matches.undo (hm : Matches c h v) : Matches c (h.undo c) v.undo := by
  obtain ⟨x, ks, ls⟩ := h
  obtain ⟨past, y, future⟩ := v
  obtain ⟨hvalue, hdone, hundone⟩ := hm
  cases hvalue
  cases hdone with
  | nil => exact ⟨rfl, .nil, hundone⟩
  | cons hk hback => exact ⟨hk.undo, hback, .cons hk hundone⟩

theorem Matches.redo (hm : Matches c h v) : Matches c (h.redo c) v.redo := by
  obtain ⟨x, ks, ls⟩ := h
  obtain ⟨past, y, future⟩ := v
  obtain ⟨hvalue, hdone, hundone⟩ := hm
  cases hvalue
  cases hundone with
  | nil => exact ⟨rfl, hdone, .nil⟩
  | cons hk hforth =>
    simp only [History.redo, Versions.redo, hk.redo]
    exact ⟨rfl, .cons hk hdone, hforth⟩

end Kit
