import Mathlib.Algebra.Order.BigOperators.Group.List
import Mathlib.Algebra.Order.Ring.Nat
import Xsky.Kit.Text

/-!
# Kit.Markers

Texts with place markers, `%0` to `%99` and `%L0` to `%L99`, and the replacement of the lowest
numbered one. Which characters are digits, and what they stand for, is a parameter: `DigitValue`.

* `pieces` — the characters and the markers a text is made of.
* `marks`  — the numbers of its markers.
* `subst`  — the text with another one in place of every marker of a number, and a third one for
  those with an `L`.
* `arg`    — the same for the lowest number there is.

`pieces_append` cuts a text where neither a digit nor an `L` follows, `subst_eq_self_iff` says when
a text comes back from a replacement.
-/

namespace Kit
namespace Text

/-- The value of a digit, of whatever script; `none` for other characters. -/
structure DigitValue where
  toFun : Char → Option Nat
  ascii : ∀ c : Char, c.toNat < 128 →
    toFun c = if c.isDigit then some (c.toNat - '0'.toNat) else none

instance : CoeFun DigitValue fun _ => Char → Option Nat := ⟨DigitValue.toFun⟩

def asciiDigits : DigitValue :=
  ⟨fun c => if c.isDigit then some (c.toNat - '0'.toNat) else none, fun _ _ => rfl⟩

inductive Piece where
  | lit (c : Char)
  | mark (isLocal : Bool) (c : Char) (d : Option Char)
deriving DecidableEq

namespace Piece

def text : Piece → Text
  | lit c => [c]
  | mark true c d => '%' :: 'L' :: c :: d.toList
  | mark false c d => '%' :: c :: d.toList

/-- What comes into the place of a marker. -/
def put (a l : Text) : Piece → Text
  | lit c => [c]
  | mark true _ _ => l
  | mark false _ _ => a

end Piece

open Piece

section

variable (v : DigitValue)

def Piece.number : Piece → Option Nat
  | lit _ => none
  | mark _ c none => v c
  | mark _ c (some d) => (v c).bind fun m => (v d).map fun n => 10 * m + n

def digitsAt (isLocal : Bool) : Text → Option Piece
  | [] => none
  | c :: s => if (v c).isSome then some (mark isLocal c (s.head?.filter (v · |>.isSome))) else none

/-- The marker behind a `%`. -/
def markAt : Text → Option Piece
  | 'L' :: s => digitsAt v true s
  | s => digitsAt v false s

def pieceAt (c : Char) (s : Text) : Piece := if c = '%' then (markAt v s).getD (lit c) else lit c

/-- The pieces behind the next `k` characters. -/
def piecesFrom : Nat → Text → List Piece
  | _, [] => []
  | k + 1, _ :: s => piecesFrom k s
  | 0, c :: s => pieceAt v c s :: piecesFrom ((pieceAt v c s).text.length - 1) s

def pieces (s : Text) : List Piece := piecesFrom v 0 s

def marks (s : Text) : List Nat := (pieces v s).filterMap (number v)

def subst (n : Nat) (a l s : Text) : Text :=
  (pieces v s).flatMap fun p => if p.number v = some n then p.put a l else p.text

def arg (s a l : Text) : Text :=
  match (marks v s).min? with
  | some n => subst v n a l s
  | none => s

/-- What has to hold of the text behind a piece. -/
def Piece.Before : Piece → Text → Prop
  | lit c, s => c = '%' → markAt v s = none
  | mark _ c none, s => (v c).isSome ∧ ∀ d ∈ s.head?, v d = none
  | mark _ c (some d), _ => (v c).isSome ∧ (v d).isSome

/-- No marker reaches into the text from what is before it. -/
def Apart (s : Text) : Prop := ∀ c ∈ s.head?, c ≠ 'L' ∧ v c = none

end

example : arg asciiDigits "%1 of %2, %12 and %L01".toList "a%2".toList "b".toList =
    "a%2 of %2, %12 and b".toList := by
  decide

/-! ## Pieces -/

variable {v : DigitValue}

theorem dv_of_not_digit {c : Char} (hc : c.toNat < 128) (h : ¬ c.isDigit) : v c = none := by
  rw [v.ascii c hc, if_neg h]

/-- A digit is none of the characters with a meaning. -/
theorem ne_of_isSome {c d : Char} (h : (v c).isSome) (hd : d.toNat < 128)
    (hdigit : ¬ d.isDigit) : c ≠ d := by
  rintro rfl
  rw [dv_of_not_digit hd hdigit] at h
  cases h

theorem markAt_of_ne {c : Char} (h : c ≠ 'L') (s : Text) :
    markAt v (c :: s) = digitsAt v false (c :: s) := by
  unfold markAt
  split
  · rename_i heq
    exact absurd (List.cons.inj heq).1 h
  · rfl

theorem digitsAt_cons (isLocal : Bool) (c : Char) (s : Text) :
    digitsAt v isLocal (c :: s) =
      if (v c).isSome then some (mark isLocal c (s.head?.filter (v · |>.isSome))) else none :=
  rfl

theorem markAt_local (s : Text) : markAt v ('L' :: s) = digitsAt v true s := rfl

theorem piecesFrom_eq (k : Nat) (s : Text) : piecesFrom v k s = pieces v (s.drop k) := by
  induction s generalizing k with
  | nil =>
    rw [List.drop_nil]
    cases k <;> rfl
  | cons c s ih =>
    cases k with
    | zero => rfl
    | succ k => exact ih k

theorem digitsAt_append {c : Char} {d : Option Char} {s : Text} (isLocal : Bool)
    (h : (mark isLocal c d).Before v s) :
    digitsAt v isLocal (c :: (d.toList ++ s)) = some (mark isLocal c d) := by
  rw [digitsAt_cons]
  cases d with
  | none =>
    rw [if_pos h.1, Option.toList_none, List.nil_append]
    cases s with
    | nil => rfl
    | cons e s => simp [h.2 e rfl]
  | some d => simp [h.1, h.2]

theorem pieceAt_text {p : Piece} {s : Text} (h : p.Before v s) :
    ∃ c t, p.text ++ s = c :: t ∧ pieceAt v c t = p ∧ t.drop (p.text.length - 1) = s := by
  cases p with
  | lit c =>
    refine ⟨c, s, rfl, ?_, rfl⟩
    unfold pieceAt
    split
    · rename_i hc
      rw [h hc, Option.getD_none]
    · rfl
  | mark isLocal c d =>
    have hdigits := digitsAt_append isLocal h
    cases isLocal with
    | true =>
      refine ⟨'%', 'L' :: c :: (d.toList ++ s), rfl, ?_, ?_⟩
      · unfold pieceAt
        rw [if_pos rfl, markAt_local, hdigits, Option.getD_some]
      · simp [text]
    | false =>
      have hc : c ≠ 'L' := by
        apply ne_of_isSome (v := v) _ (by decide) (by decide)
        cases d with
        | none => exact h.1
        | some d => exact h.1
      refine ⟨'%', c :: (d.toList ++ s), rfl, ?_, ?_⟩
      · unfold pieceAt
        rw [if_pos rfl, markAt_of_ne hc, hdigits, Option.getD_some]
      · simp [text]

theorem pieces_cons {p : Piece} {s : Text} (h : p.Before v s) :
    pieces v (p.text ++ s) = p :: pieces v s := by
  obtain ⟨c, t, htext, hp, hrest⟩ := pieceAt_text h
  rw [htext]
  change pieceAt v c t :: piecesFrom v ((pieceAt v c t).text.length - 1) t = _
  rw [hp, piecesFrom_eq, hrest]

theorem exists_digits {isLocal : Bool} {s : Text} {p : Piece} (h : digitsAt v isLocal s = some p) :
    ∃ c d t, p = mark isLocal c d ∧ s = c :: (d.toList ++ t) ∧ p.Before v t := by
  cases s with
  | nil => cases h
  | cons c s =>
    rw [digitsAt_cons] at h
    split at h
    · rename_i hc
      cases s with
      | nil =>
        obtain rfl := Option.some.inj h
        exact ⟨c, none, [], rfl, rfl, hc, fun d hd => by cases hd⟩
      | cons e s =>
        cases he : v e with
        | none =>
          rw [List.head?_cons, Option.filter_some, he] at h
          obtain rfl := Option.some.inj h
          refine ⟨c, none, e :: s, rfl, rfl, hc, ?_⟩
          simpa using he
        | some n =>
          rw [List.head?_cons, Option.filter_some, he] at h
          obtain rfl := Option.some.inj h
          exact ⟨c, some e, s, rfl, rfl, hc, by rw [he]; rfl⟩
    · cases h

theorem exists_before (c : Char) (s : Text) :
    ∃ p t, c :: s = text p ++ t ∧ p.Before v t ∧ t.length < (c :: s).length := by
  by_cases hmark : c = '%' ∧ (markAt v s).isSome
  · obtain ⟨rfl, hsome⟩ := hmark
    obtain ⟨p, hp⟩ := Option.isSome_iff_exists.mp hsome
    have hlocal : ∃ p t, '%' :: s = text p ++ t ∧ p.Before v t := by
      unfold markAt at hp
      split at hp
      · obtain ⟨c, d, t, rfl, rfl, hbefore⟩ := exists_digits hp
        exact ⟨_, t, rfl, hbefore⟩
      · obtain ⟨c, d, t, rfl, rfl, hbefore⟩ := exists_digits hp
        exact ⟨_, t, rfl, hbefore⟩
    obtain ⟨p, t, htext, hbefore⟩ := hlocal
    refine ⟨p, t, htext, hbefore, ?_⟩
    have hpos : 0 < p.text.length := by
      rcases p with c | ⟨_ | _, c, d⟩ <;> simp [text]
    rw [htext, List.length_append]
    omega
  · refine ⟨lit c, s, rfl, fun hc => ?_, Nat.lt_succ_self _⟩
    rw [← Option.not_isSome_iff_eq_none]
    exact fun h => hmark ⟨hc, h⟩

/-- Induction along the pieces of a text. -/
theorem pieces_rec {motive : Text → Prop} (nil : motive [])
    (cons : ∀ p s, Piece.Before v p s → motive s → motive (p.text ++ s)) (s : Text) :
    motive s := by
  induction hn : s.length using Nat.strongRecOn generalizing s with
  | ind n ih =>
    cases s with
    | nil => exact nil
    | cons c s =>
      obtain ⟨p, t, heq, hp, ht⟩ := exists_before (v := v) c s
      rw [heq]
      exact cons p t hp (ih t.length (hn ▸ ht) t rfl)

theorem flatMap_pieces (s : Text) : (pieces v s).flatMap text = s := by
  induction s using pieces_rec (v := v) with
  | nil => rfl
  | cons p s hp ih => rw [pieces_cons hp, List.flatMap_cons, ih]

theorem digitsAt_eq_none {isLocal : Bool} {s : Text} :
    digitsAt v isLocal s = none ↔ ∀ c ∈ s.head?, v c = none := by
  cases s with
  | nil => simp [digitsAt]
  | cons c s => simp [digitsAt]

theorem markAt_append {s t : Text} (hs : markAt v s = none) (ht : Apart v t) :
    markAt v (s ++ t) = none := by
  cases s with
  | nil =>
    cases t with
    | nil => exact hs
    | cons c t =>
      obtain ⟨hc, hnone⟩ := ht c rfl
      rw [List.nil_append, markAt_of_ne hc, digitsAt_eq_none]
      simpa using hnone
  | cons c s =>
    by_cases hc : c = 'L'
    · subst hc
      rw [List.cons_append]
      rw [markAt_local, digitsAt_eq_none] at hs ⊢
      cases s with
      | nil => exact fun c hc => (ht c hc).2
      | cons d s => exact hs
    · rw [List.cons_append]
      rw [markAt_of_ne hc, digitsAt_eq_none] at hs ⊢
      exact hs

theorem Piece.Before.append {p : Piece} {s t : Text} (h : p.Before v s) (ht : Apart v t) :
    p.Before v (s ++ t) := by
  cases p with
  | lit c => exact fun hc => markAt_append (h hc) ht
  | mark isLocal c d =>
    cases d with
    | some d => exact h
    | none =>
      refine ⟨h.1, ?_⟩
      cases s with
      | nil => exact fun d hd => (ht d hd).2
      | cons e s => exact h.2

/-- No marker reaches over a place that neither a digit nor an `L` follows. -/
theorem pieces_append {t : Text} (ht : Apart v t) (s : Text) :
    pieces v (s ++ t) = pieces v s ++ pieces v t := by
  induction s using pieces_rec (v := v) with
  | nil => rfl
  | cons p s hp ih => rw [List.append_assoc, pieces_cons (hp.append ht), ih, pieces_cons hp,
      List.cons_append]

theorem subst_cons {p : Piece} {s : Text} (h : p.Before v s) (n : Nat) (a l : Text) :
    subst v n a l (p.text ++ s) =
      (if p.number v = some n then p.put a l else p.text) ++ subst v n a l s := by
  unfold subst
  rw [pieces_cons h, List.flatMap_cons]

theorem mem_marks_cons {p : Piece} {s : Text} (h : p.Before v s) {n : Nat} :
    n ∈ marks v (p.text ++ s) ↔ p.number v = some n ∨ n ∈ marks v s := by
  unfold marks
  rw [pieces_cons h, List.mem_filterMap, List.mem_filterMap]
  simp

theorem subst_of_not_mem {n : Nat} {s : Text} (h : n ∉ marks v s) (a l : Text) :
    subst v n a l s = s := by
  have hkept : ∀ p ∈ pieces v s, (if p.number v = some n then p.put a l else p.text) = p.text := by
    intro p hp
    rw [if_neg]
    exact fun hn => h (List.mem_filterMap.mpr ⟨p, hp, hn⟩)
  unfold subst
  rw [List.flatMap_congr hkept, flatMap_pieces]

theorem marks_eq_nil {s : Text} (h : '%' ∉ s) : marks v s = [] := by
  induction s with
  | nil => rfl
  | cons c s ih =>
    rw [List.mem_cons, not_or] at h
    have hc : (lit c).Before v s := fun hc => absurd hc.symm h.1
    have hcons := pieces_cons hc
    unfold marks at ih ⊢
    rw [text, List.singleton_append] at hcons
    rw [hcons, List.filterMap_cons_none rfl, ih h.2]

theorem arg_of_le {s : Text} {n : Nat} (hn : n ∈ marks v s) (hle : ∀ m ∈ marks v s, n ≤ m)
    (a l : Text) : arg v s a l = subst v n a l s := by
  unfold arg
  rw [List.min?_eq_some_iff.mpr ⟨hn, hle⟩]

theorem mem_put {a l : Text} {p : Piece} {c : Char} (h : c ∈ p.put a l) :
    c ∈ a ∨ c ∈ l ∨ c ∈ p.text := by
  rcases p with d | ⟨_ | _, d, e⟩
  · exact .inr (.inr h)
  · exact .inl h
  · exact .inr (.inl h)

/-- The characters of a text with others put in are from the three. -/
theorem mem_subst {n : Nat} {a l s : Text} {c : Char} (h : c ∈ subst v n a l s) :
    c ∈ a ∨ c ∈ l ∨ c ∈ s := by
  induction s using pieces_rec (v := v) with
  | nil => cases h
  | cons p s hp ih =>
    rw [List.mem_append]
    rw [subst_cons hp, List.mem_append] at h
    rcases h with h | h
    · split at h
      · exact (mem_put h).imp_right (.imp_right .inl)
      · exact .inr (.inr (.inl h))
    · exact (ih h).imp_right (.imp_right .inr)

/-! ## One number -/

def digit (n : Nat) : Char := Char.ofNat ('0'.toNat + n)

/-- The marker of a number with one digit. -/
def marker (n : Nat) : Text := ['%', digit n]

theorem dv_digit {n : Nat} (h : n < 10) : v (digit n) = some n := by
  have hall : ∀ n < 10, (digit n).toNat < 128 ∧ (digit n).isDigit ∧
      (digit n).toNat - '0'.toNat = n := by decide
  obtain ⟨hascii, hdigit, hvalue⟩ := hall n h
  rw [v.ascii _ hascii, if_pos hdigit, hvalue]

theorem number_digit {n : Nat} (h : n < 10) : (mark false (digit n) none).number v = some n :=
  dv_digit h

theorem pieces_marker {n : Nat} (h : n < 10) :
    pieces v (marker n) = [mark false (digit n) none] := by
  have hbefore : (mark false (digit n) none).Before v [] := by
    refine ⟨?_, fun d hd => by cases hd⟩
    rw [dv_digit h]
    rfl
  exact pieces_cons hbefore

theorem marks_marker {n : Nat} (h : n < 10) : marks v (marker n) = [n] := by
  unfold marks
  rw [pieces_marker h, List.filterMap_cons_some (number_digit h)]
  rfl

theorem subst_of_marker {n : Nat} (h : n < 10) (a l : Text) :
    subst v n a l (marker n) = a := by
  unfold subst
  rw [pieces_marker h, List.flatMap_singleton, if_pos (number_digit h)]
  rfl

/-! ## Counting characters -/

theorem digits_of_number {isLocal : Bool} {c : Char} {d : Option Char} {n : Nat}
    (h : (mark isLocal c d).number v = some n) :
    (v c).isSome ∧ ∀ e ∈ d, (v e).isSome := by
  cases d with
  | none =>
    rw [Piece.number] at h
    exact ⟨by rw [h]; rfl, fun e he => by cases he⟩
  | some d =>
    simp only [Piece.number, Option.bind_eq_some_iff, Option.map_eq_some_iff] at h
    obtain ⟨i, hi, j, hj, -⟩ := h
    refine ⟨by rw [hi]; rfl, ?_⟩
    intro e he
    obtain rfl := Option.some.inj he
    rw [hj]
    rfl

/-- A marker has one `%`, and an `L` if it is localized; the rest are one or two digits. -/
theorem counts_of_number {p : Piece} {n : Nat} (h : p.number v = some n) :
    p.text.countP (· = '%') = 1 ∧ p.text.countP (· = 'L') ≤ 1 ∧
      2 + p.text.countP (· = 'L') ≤ p.text.length ∧
      p.text.length ≤ 3 + p.text.countP (· = 'L') := by
  rcases p with c | ⟨isLocal, c, d⟩
  · cases h
  obtain ⟨hc, hd⟩ := digits_of_number h
  have hpct := ne_of_isSome hc (d := '%') (by decide) (by decide)
  have hloc := ne_of_isSome hc (d := 'L') (by decide) (by decide)
  have hpct' : ∀ e ∈ d, e ≠ '%' := fun e he => ne_of_isSome (hd e he) (by decide) (by decide)
  have hloc' : ∀ e ∈ d, e ≠ 'L' := fun e he => ne_of_isSome (hd e he) (by decide) (by decide)
  cases d with
  | none => cases isLocal <;> simp [text, hpct, hloc]
  | some d =>
    have hpct'' := hpct' d rfl
    have hloc'' := hloc' d rfl
    cases isLocal <;> simp [text, hpct, hloc, hpct'', hloc'']

/-- What is put in has as many characters of a kind as the markers have, at most. -/
theorem countP_subst_le {q : Char → Bool} {n : Nat} {a l : Text}
    (h : ∀ p : Piece, p.number v = some n → (p.put a l).countP q ≤ p.text.countP q) (s : Text) :
    (subst v n a l s).countP q ≤ s.countP q := by
  induction s using pieces_rec (v := v) with
  | nil => exact Nat.le_refl _
  | cons p s hp ih =>
    rw [subst_cons hp, List.countP_append, List.countP_append]
    split
    · rename_i hn
      have hput := h p hn
      omega
    · omega

theorem countP_subst_lt {q : Char → Bool} {n : Nat} {a l : Text}
    (h : ∀ p : Piece, p.number v = some n → (p.put a l).countP q < p.text.countP q) {s : Text}
    (hs : n ∈ marks v s) : (subst v n a l s).countP q < s.countP q := by
  induction s using pieces_rec (v := v) with
  | nil => cases hs
  | cons p s hp ih =>
    have hle := countP_subst_le (fun p hn => Nat.le_of_lt (h p hn)) s
    rw [mem_marks_cons hp] at hs
    rw [subst_cons hp, List.countP_append, List.countP_append]
    split
    · rename_i hn
      have hput := h p hn
      omega
    · rename_i hn
      have hlt := ih (hs.resolve_left hn)
      omega

/-! ## One text for all markers of a number -/

/-- How the markers of a number are written in a text. -/
def spellings (v : DigitValue) (n : Nat) (s : Text) : List Text :=
  ((pieces v s).filter (·.number v = some n)).map text

theorem spellings_cons {p : Piece} {s : Text} (h : p.Before v s) (n : Nat) :
    spellings v n (p.text ++ s) =
      (if p.number v = some n then [p.text] else []) ++ spellings v n s := by
  unfold spellings
  rw [pieces_cons h, List.filter_cons]
  split <;> simp_all

theorem mem_spellings {n : Nat} {s t : Text} :
    t ∈ spellings v n s ↔ ∃ p ∈ pieces v s, p.number v = some n ∧ p.text = t := by
  unfold spellings
  simp [and_assoc]

theorem put_self {p : Piece} {n : Nat} (h : p.number v = some n) (a : Text) : p.put a a = a := by
  rcases p with c | ⟨_ | _, c, d⟩
  · cases h
  · rfl
  · rfl

theorem countP_subst (q : Char → Bool) (n : Nat) (a s : Text) :
    (subst v n a a s).countP q + ((spellings v n s).map (List.countP q)).sum =
      s.countP q + (spellings v n s).length * a.countP q := by
  induction s using pieces_rec (v := v) with
  | nil => simp [subst, spellings, pieces, piecesFrom]
  | cons p s hp ih =>
    rw [spellings_cons hp, subst_cons hp, List.countP_append, List.countP_append]
    split
    · rename_i hn
      rw [put_self hn, List.singleton_append, List.map_cons, List.sum_cons, List.length_cons,
        Nat.add_mul, Nat.one_mul]
      omega
    · rw [List.nil_append]
      omega

/-- Numbers on one side of their average. -/
theorem eq_of_sum_eq {b : Nat} {l : List Nat} (hsum : l.sum = l.length * b)
    (h : (∀ x ∈ l, b ≤ x) ∨ ∀ x ∈ l, x ≤ b) : ∀ x ∈ l, x = b := by
  induction l with
  | nil => exact fun x hx => by cases hx
  | cons y l ih =>
    rw [List.sum_cons, List.length_cons, Nat.add_mul, Nat.one_mul] at hsum
    rw [List.forall_mem_cons, List.forall_mem_cons] at h
    rw [List.forall_mem_cons]
    rcases h with ⟨hy, h⟩ | ⟨hy, h⟩
    · have hle := List.card_nsmul_le_sum l b h
      rw [Nat.nsmul_eq_mul] at hle
      exact ⟨by omega, ih (by omega) (.inl h)⟩
    · have hle := List.sum_le_card_nsmul l b h
      rw [Nat.nsmul_eq_mul] at hle
      exact ⟨by omega, ih (by omega) (.inr h)⟩

/-- In a text that comes back, all markers of the number have as many characters of a kind as what
is put in, if none has more or none has fewer. -/
theorem countP_spellings_eq {q : Char → Bool} {n : Nat} {a s : Text} (h : subst v n a a s = s)
    (hside : (∀ t ∈ spellings v n s, a.countP q ≤ t.countP q) ∨
      ∀ t ∈ spellings v n s, t.countP q ≤ a.countP q) :
    ∀ t ∈ spellings v n s, t.countP q = a.countP q := by
  have hcount := countP_subst (v := v) q n a s
  rw [h] at hcount
  have hall : ∀ x ∈ (spellings v n s).map (List.countP q), x = a.countP q := by
    apply eq_of_sum_eq
    · rw [List.length_map]
      omega
    · rwa [List.forall_mem_map, List.forall_mem_map]
  rwa [List.forall_mem_map] at hall

/-- If all markers of a number are as long as the text put in for them. -/
theorem spellings_of_length {n : Nat} {a s : Text} (h : subst v n a a s = s)
    (hlen : ∀ t ∈ spellings v n s, t.length = a.length) : ∀ t ∈ spellings v n s, t = a := by
  induction s using pieces_rec (v := v) with
  | nil => exact fun t ht => by cases ht
  | cons p s hp ih =>
    rw [subst_cons hp] at h
    rw [spellings_cons hp] at hlen ⊢
    split at h
    · rename_i hn
      rw [if_pos hn, List.singleton_append, List.forall_mem_cons] at hlen ⊢
      rw [put_self hn] at h
      obtain ⟨rfl, hs⟩ := List.append_inj h hlen.1.symm
      exact ⟨rfl, ih hs hlen.2⟩
    · rename_i hn
      rw [if_neg hn, List.nil_append] at hlen ⊢
      exact ih (List.append_cancel_left h) hlen

/-- A text comes back if what is put in is how all the markers of the number are written. -/
theorem subst_eq_self_iff {n : Nat} {a s : Text} :
    subst v n a a s = s ↔ ∀ t ∈ spellings v n s, t = a := by
  constructor
  · intro h
    have hcounts : ∀ t ∈ spellings v n s, t.countP (· = 'L') ≤ 1 ∧
        2 + t.countP (· = 'L') ≤ t.length ∧ t.length ≤ 3 + t.countP (· = 'L') := by
      intro t ht
      obtain ⟨p, -, hn, rfl⟩ := mem_spellings.mp ht
      exact (counts_of_number hn).2
    -- first all markers have an `L` or none has, then all have as many digits
    have hloc : ∀ t ∈ spellings v n s, t.countP (· = 'L') = a.countP (· = 'L') := by
      apply countP_spellings_eq h
      by_cases hzero : a.countP (· = 'L') = 0
      · exact .inl fun t _ => by omega
      · exact .inr fun t ht => by
          have := (hcounts t ht).1
          omega
    have hlen : ∀ t ∈ spellings v n s, t.countP (fun _ => true) = a.countP (fun _ => true) := by
      apply countP_spellings_eq h
      simp only [List.countP_true]
      by_cases hshort : a.length ≤ 2 + a.countP (· = 'L')
      · exact .inl fun t ht => by
          have := (hcounts t ht).2.1
          have := hloc t ht
          omega
      · exact .inr fun t ht => by
          have := (hcounts t ht).2.2
          have := hloc t ht
          omega
    simp only [List.countP_true] at hlen
    exact spellings_of_length h hlen
  · intro h
    induction s using pieces_rec (v := v) with
    | nil => rfl
    | cons p s hp ih =>
      rw [spellings_cons hp, List.forall_mem_append] at h
      rw [subst_cons hp, ih h.2]
      split
      · rename_i hn
        rw [if_pos hn, List.forall_mem_singleton] at h
        rw [put_self hn, h.1]
      · rfl

end Text
end Kit
