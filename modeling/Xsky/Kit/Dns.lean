import Xsky.Kit.Mem

/-!
# Kit.Dns

DNS messages in wire format. A name is kept as the bytes that stand for it, whether labels or a
pointer; a message is well formed if its sections are as long as its header counts them, and nothing
is left over.

* `takeName`, `takeQuestion`, `takeRecord` — what the bytes start with, and the rest.
* `takeMany` — so many in a row.
* `parse`    — a whole message.

What is taken from the front of some bytes is taken as well when more bytes follow (`Takes`), and
several in a row are taken one part after the other (`takeMany_add`).
-/

namespace Kit
namespace Dns

def num16 (hi lo : Byte) : Nat := 2 ^ 8 * hi.toNat + lo.toNat

/-- A name of these labels. -/
def nameBytes (labels : List (List Byte)) : List Byte :=
  (labels.flatMap fun l => BitVec.ofNat 8 l.length :: l) ++ [0]

structure Question where
  name : List Byte
  qtype : Nat
  qclass : Nat
deriving DecidableEq

structure Record where
  name : List Byte
  type : Nat
  cls : Nat
  ttl : List Byte
  rdata : List Byte
deriving DecidableEq

structure Message where
  id : Nat
  flags : Nat
  questions : List Question
  answers : List Record
  authority : List Record
  additional : List Record
deriving DecidableEq

/-- The first argument is how many bytes of the label at hand are still to come. -/
def takeName : Nat → List Byte → Option (List Byte × List Byte)
  | _, [] => none
  | n + 1, b :: bs => (takeName n bs).map fun (name, rest) => (b :: name, rest)
  | 0, b :: bs =>
    if b = 0 then some ([b], bs)
    else if b.toNat < 64 then (takeName b.toNat bs).map fun (name, rest) => (b :: name, rest)
    else if b.toNat < 192 then none
    else
      match bs with
      | [] => none
      | c :: bs => some ([b, c], bs)

def takeQuestion (bs : List Byte) : Option (Question × List Byte) :=
  match takeName 0 bs with
  | some (name, t1 :: t2 :: c1 :: c2 :: rest) => some (⟨name, num16 t1 t2, num16 c1 c2⟩, rest)
  | _ => none

def takeRecord (bs : List Byte) : Option (Record × List Byte) :=
  match takeName 0 bs with
  | some (name, t1 :: t2 :: c1 :: c2 :: l1 :: l2 :: l3 :: l4 :: n1 :: n2 :: rest) =>
    if num16 n1 n2 ≤ rest.length then
      some (⟨name, num16 t1 t2, num16 c1 c2, [l1, l2, l3, l4], rest.take (num16 n1 n2)⟩,
        rest.drop (num16 n1 n2))
    else none
  | _ => none

def takeMany {α : Type} (take : List Byte → Option (α × List Byte)) :
    Nat → List Byte → Option (List α × List Byte)
  | 0, bs => some ([], bs)
  | n + 1, bs =>
    match take bs with
    | none => none
    | some (a, rest) => (takeMany take n rest).map fun (as, rest) => (a :: as, rest)

def parse : List Byte → Option Message
  | i1 :: i2 :: f1 :: f2 :: q1 :: q2 :: a1 :: a2 :: n1 :: n2 :: r1 :: r2 :: bs => do
    let (questions, bs) ← takeMany takeQuestion (num16 q1 q2) bs
    let (answers, bs) ← takeMany takeRecord (num16 a1 a2) bs
    let (authority, bs) ← takeMany takeRecord (num16 n1 n2) bs
    let (additional, bs) ← takeMany takeRecord (num16 r1 r2) bs
    if bs = [] then
      some ⟨num16 i1 i2, num16 f1 f2, questions, answers, authority, additional⟩
    else none
  | _ => none

example : parse ([0, 7, 1, 0, 0, 1, 0, 0, 0, 0, 0, 0] ++ nameBytes [[97, 98], [99]] ++
    [0, 1, 0, 1]) = some ⟨7, 256, [⟨[2, 97, 98, 1, 99, 0], 1, 1⟩], [], [], []⟩ := by
  decide

/-! ## More bytes -/

/-- What is taken does not depend on what follows. -/
def Takes {α : Type} (take : List Byte → Option (α × List Byte)) : Prop :=
  ∀ bs a rest, take bs = some (a, rest) → ∀ more, take (bs ++ more) = some (a, rest ++ more)

theorem takes_name (n : Nat) : Takes (takeName n) := by
  intro bs
  induction bs generalizing n with
  | nil =>
    intro a rest h
    cases n <;> cases h
  | cons b bs ih =>
    intro a rest h more
    cases n with
    | succ n =>
      simp only [takeName, Option.map_eq_some_iff, Prod.exists, Prod.mk.injEq] at h
      obtain ⟨name, rest1, hname, rfl, rfl⟩ := h
      simp only [List.cons_append, takeName, ih n name rest1 hname more, Option.map_some]
    | zero =>
      simp only [List.cons_append, takeName] at h ⊢
      split at h
      · rename_i hb
        cases h
        rw [if_pos hb]
      · rename_i hb
        rw [if_neg hb]
        split at h
        · rename_i hlabel
          rw [if_pos hlabel]
          simp only [Option.map_eq_some_iff, Prod.exists, Prod.mk.injEq] at h
          obtain ⟨name, rest1, hname, rfl, rfl⟩ := h
          rw [ih _ name rest1 hname more, Option.map_some]
        · rename_i hlabel
          rw [if_neg hlabel]
          split at h
          · cases h
          · rename_i hpointer
            rw [if_neg hpointer]
            cases bs with
            | nil => cases h
            | cons c bs =>
              cases h
              rfl

theorem takes_question : Takes takeQuestion := by
  intro bs a rest h more
  unfold takeQuestion at h ⊢
  split at h
  · rename_i name t1 t2 c1 c2 rest1 hname
    cases h
    rw [takes_name 0 bs _ _ hname more]
    rfl
  · cases h

theorem takes_record : Takes takeRecord := by
  intro bs a rest h more
  unfold takeRecord at h ⊢
  split at h
  · rename_i name t1 t2 c1 c2 l1 l2 l3 l4 n1 n2 rest1 hname
    split at h
    · rename_i hlen
      cases h
      rw [takes_name 0 bs _ _ hname more]
      simp only [List.cons_append]
      rw [if_pos (by rw [List.length_append]; omega), List.take_append_of_le_length hlen,
        List.drop_append_of_le_length hlen]
    · cases h
  · cases h

theorem takes_many {α : Type} {take : List Byte → Option (α × List Byte)} (htake : Takes take)
    (n : Nat) : Takes (takeMany take n) := by
  induction n with
  | zero =>
    intro bs a rest h more
    cases h
    rfl
  | succ n ih =>
    intro bs as rest h more
    simp only [takeMany] at h ⊢
    split at h
    · cases h
    · rename_i a rest1 ha
      simp only [Option.map_eq_some_iff, Prod.exists, Prod.mk.injEq] at h
      obtain ⟨as1, rest2, has, rfl, rfl⟩ := h
      rw [htake bs a rest1 ha more]
      simp only [ih rest1 as1 rest2 has more, Option.map_some]

/-! ## Parts -/

variable {α : Type} {take : List Byte → Option (α × List Byte)}

theorem takeMany_length {n : Nat} {bs rest : List Byte} {as : List α}
    (h : takeMany take n bs = some (as, rest)) : as.length = n := by
  induction n generalizing bs as with
  | zero =>
    cases h
    rfl
  | succ n ih =>
    simp only [takeMany] at h
    split at h
    · cases h
    · simp only [Option.map_eq_some_iff, Prod.exists, Prod.mk.injEq] at h
      obtain ⟨as1, rest2, has, rfl, rfl⟩ := h
      rw [List.length_cons, ih has]

theorem takeMany_add (m n : Nat) (bs : List Byte) :
    takeMany take (m + n) bs =
      match takeMany take m bs with
      | none => none
      | some (as, rest) => (takeMany take n rest).map fun (bs, rest) => (as ++ bs, rest) := by
  induction m generalizing bs with
  | zero =>
    rw [Nat.zero_add]
    simp only [takeMany, List.nil_append]
    cases takeMany take n bs <;> rfl
  | succ m ih =>
    rw [Nat.add_right_comm]
    simp only [takeMany]
    cases take bs with
    | none => rfl
    | some p =>
      simp only [ih]
      cases takeMany take m p.2 with
      | none => rfl
      | some q =>
        simp only [Option.map_some]
        cases takeMany take n q.2 <;> rfl

end Dns
end Kit
