import Mathlib.Data.List.Infix
import Mathlib.Data.List.TakeWhile

/-!
# Kit.Text

Texts as lists of characters, with the searches and the line reader a program makes on them.

* `find`     — the first place of a pattern; `findFrom` that of one character, from a place on.
* `slice`    — the characters from one place up to another.
* `getline`  — the text up to the newline, which is taken and not kept, or all there is.
* `unlines`  — lines, each with its newline.

`find_eq_zero` and `find_eq_none_iff` say what `find` returns; `infix_unlines` and
`infix_unlines_newline` place a text without a newline in the line it belongs to, and
`exists_unlines` cuts any text into lines and a rest. `not_mem_of_mem_splitOn` and `exists_part` say
what is in the parts of a text cut at a separator.
-/

namespace Kit

abbrev Text := List Char

namespace Text

def find (pat : Text) : Text → Option Nat
  | [] => if pat = [] then some 0 else none
  | c :: s => if pat.isPrefixOf (c :: s) then some 0 else (find pat s).map (· + 1)

def findFrom (c : Char) (s : Text) (i : Nat) : Option Nat :=
  ((s.drop i).findIdx? (· == c)).map (· + i)

def slice (s : Text) (i j : Nat) : Text := (s.drop i).take (j - i)

/-- The line read and what is left of the text. -/
def getline (s : Text) : Text × Text :=
  (s.takeWhile (· ≠ '\n'), (s.dropWhile (· ≠ '\n')).tail)

def unlines (ls : List Text) : Text := ls.flatMap (· ++ ['\n'])

theorem find_eq_zero {pat s : Text} (h : pat <+: s) : find pat s = some 0 := by
  cases s with
  | nil =>
    rw [List.prefix_nil] at h
    simp [find, h]
  | cons c s =>
    unfold find
    rw [if_pos (List.isPrefixOf_iff_prefix.mpr h)]

theorem find_eq_none_iff {pat s : Text} : find pat s = none ↔ ¬ pat <:+: s := by
  induction s with
  | nil =>
    unfold find
    rw [List.infix_nil]
    split <;> simp [*]
  | cons c s ih =>
    unfold find
    rw [List.infix_cons_iff, not_or, ← ih]
    split
    · rename_i h
      simp [List.isPrefixOf_iff_prefix.mp h]
    · rename_i h
      rw [List.isPrefixOf_iff_prefix] at h
      simp [h]

theorem findFrom_append {c : Char} {s t : Text} (i : Nat) (hi : i ≤ s.length)
    (h : c ∉ s.drop i) : findFrom c (s ++ c :: t) i = some s.length := by
  unfold findFrom
  rw [List.drop_append_of_le_length hi, List.findIdx?_append,
    List.findIdx?_eq_none_iff.mpr fun x hx => by simpa using fun hxc : x = c => h (hxc ▸ hx)]
  simp only [List.findIdx?_cons, BEq.rfl, List.length_drop, Option.none_or, Option.map_some,
    if_true]
  congr 1
  omega

theorem findFrom_eq_none {c : Char} {s : Text} {i : Nat} (h : c ∉ s.drop i) :
    findFrom c s i = none := by
  unfold findFrom
  rw [List.findIdx?_eq_none_iff.mpr fun x hx => by simpa using fun hxc : x = c => h (hxc ▸ hx)]
  rfl

theorem findFrom_isSome {c : Char} {s : Text} {i : Nat} (h : c ∈ s.drop i) :
    ∃ j, findFrom c s i = some j ∧ i ≤ j ∧ j < s.length := by
  unfold findFrom
  cases hfind : (s.drop i).findIdx? (· == c) with
  | none =>
    rw [List.findIdx?_eq_none_iff] at hfind
    exact absurd (hfind c h) (by simp)
  | some k =>
    have hk := (List.findIdx?_eq_some_iff_getElem.mp hfind).1
    rw [List.length_drop] at hk
    exact ⟨k + i, rfl, by omega, by omega⟩

theorem getline_newline {l : Text} (s : Text) (h : '\n' ∉ l) :
    getline (l ++ '\n' :: s) = (l, s) := by
  have hl : ∀ c ∈ l, decide (c ≠ '\n') = true := by
    intro c hc
    exact decide_eq_true fun hcn => h (hcn ▸ hc)
  unfold getline
  rw [List.takeWhile_append_of_pos hl, List.dropWhile_append_of_pos hl]
  simp

theorem getline_last {l : Text} (h : '\n' ∉ l) : getline l = (l, []) := by
  have hl : ∀ c ∈ l, decide (c ≠ '\n') = true := by
    intro c hc
    exact decide_eq_true fun hcn => h (hcn ▸ hc)
  unfold getline
  rw [List.takeWhile_eq_self_iff.mpr hl, List.dropWhile_eq_nil_iff.mpr hl]
  rfl

@[simp] theorem unlines_cons (l : Text) (ls : List Text) :
    unlines (l :: ls) = l ++ '\n' :: unlines ls := by
  simp [unlines]

/-- A text without a newline lies in one line. -/
theorem infix_unlines {p : Text} (h : '\n' ∉ p) :
    ∀ {ls : List Text}, p <:+: unlines ls → p ≠ [] → ∃ l ∈ ls, p <:+: l := by
  intro ls
  induction ls with
  | nil =>
    intro hp hne
    exact absurd (List.infix_nil.mp hp) hne
  | cons l ls ih =>
    intro hp hne
    rw [unlines_cons, List.infix_append_iff] at hp
    rcases hp with hl | hls | ⟨t, s, rfl, ht, hs⟩
    · exact ⟨l, by simp, hl⟩
    · rcases List.infix_cons_iff.mp hls with hpre | hin
      · -- a prefix of what follows the line starts with its newline
        cases p with
        | nil => exact absurd rfl hne
        | cons c p =>
          rw [List.cons_prefix_cons] at hpre
          exact absurd (by simp [hpre.1]) h
      · obtain ⟨l', hl', hp'⟩ := ih hin hne
        exact ⟨l', by simp [hl'], hp'⟩
    · cases s with
      | nil => exact ⟨l, by simp, by simpa using ht.isInfix⟩
      | cons c s =>
        rw [List.cons_prefix_cons] at hs
        exact absurd (by simp [hs.1]) h

/-- One that a newline follows ends the line. -/
theorem infix_unlines_newline {p : Text} (h : '\n' ∉ p) :
    ∀ {ls : List Text}, (∀ l ∈ ls, '\n' ∉ l) → p ++ ['\n'] <:+: unlines ls →
      ∃ l ∈ ls, p <:+ l := by
  intro ls
  induction ls with
  | nil =>
    intro _ hp
    simp [unlines] at hp
  | cons l ls ih =>
    intro hls hp
    have hl : '\n' ∉ l := hls l (by simp)
    rw [unlines_cons, List.infix_append_iff] at hp
    rcases hp with hin | hrest | ⟨t, s, heq, ht, hs⟩
    · exact absurd (hin.subset (by simp)) hl
    · rcases List.infix_cons_iff.mp hrest with hpre | hin
      · cases p with
        | nil => exact ⟨l, by simp, List.nil_suffix⟩
        | cons c p =>
          rw [List.cons_append, List.cons_prefix_cons] at hpre
          exact absurd (by simp [hpre.1]) h
      · obtain ⟨l', hl', hp'⟩ := ih (fun x hx => hls x (by simp [hx])) hin
        exact ⟨l', by simp [hl'], hp'⟩
    · cases s with
      | nil =>
        rw [List.append_nil] at heq
        exact absurd (ht.subset (by simp [← heq])) hl
      | cons c s =>
        rw [List.cons_prefix_cons] at hs
        have hs' : s = [] := by
          rcases List.eq_nil_or_concat s with rfl | ⟨s', d, rfl⟩
          · rfl
          · -- otherwise the newline after `t` would lie inside `p`
            have hp' : p = t ++ c :: s' := by
              have hlast := congrArg List.dropLast heq
              rw [List.concat_eq_append, ← List.cons_append, ← List.append_assoc,
                List.dropLast_concat, List.dropLast_concat] at hlast
              exact hlast
            exact absurd (by simp [hp', hs.1]) h
        subst hs'
        have hpt : p = t := by
          have hlast := congrArg List.dropLast heq
          rwa [List.dropLast_concat, List.dropLast_concat] at hlast
        exact ⟨l, by simp, by rw [hpt]; exact ht⟩

/-- Every text is lines with their newlines and a rest without one. -/
theorem exists_unlines (s : Text) :
    ∃ ls tail, s = unlines ls ++ tail ∧ (∀ l ∈ ls, '\n' ∉ l) ∧ '\n' ∉ tail := by
  induction s with
  | nil => exact ⟨[], [], rfl, by simp, by simp⟩
  | cons c s ih =>
    obtain ⟨ls, tail, rfl, hls, htail⟩ := ih
    by_cases hc : c = '\n'
    · subst hc
      refine ⟨[] :: ls, tail, by simp, ?_, htail⟩
      intro l hl
      rcases List.mem_cons.mp hl with rfl | hl
      · simp
      · exact hls l hl
    · have hc' : ∀ {l : Text}, '\n' ∉ l → '\n' ∉ c :: l := by
        intro l hl hmem
        rcases List.mem_cons.mp hmem with h | h
        · exact hc h.symm
        · exact hl h
      cases ls with
      | nil => exact ⟨[], c :: tail, rfl, by simp, hc' htail⟩
      | cons l ls =>
        refine ⟨(c :: l) :: ls, tail, by simp, ?_, htail⟩
        intro l' hl'
        rcases List.mem_cons.mp hl' with rfl | hl'
        · exact hc' (hls l (by simp))
        · exact hls l' (by simp [hl'])

/-- Lines that are not empty leave no two newlines next to each other. -/
theorem not_blank_unlines {ls : List Text} (h : ∀ l ∈ ls, l ≠ [] ∧ '\n' ∉ l) :
    ¬ ['\n', '\n'] <:+: unlines ls := by
  induction ls with
  | nil => simp [unlines]
  | cons l ls ih =>
    intro hin
    have hl := h l (by simp)
    have hfirst : ¬ ['\n'] <+: unlines ls := by
      intro hpre
      cases ls with
      | nil => simp [unlines] at hpre
      | cons l' ls =>
        have hl' := h l' (by simp)
        cases l' with
        | nil => exact hl'.1 rfl
        | cons c l' =>
          rw [unlines_cons, List.cons_append, List.cons_prefix_cons] at hpre
          exact hl'.2 (hpre.1 ▸ List.mem_cons_self)
    rw [unlines_cons, List.infix_append_iff] at hin
    rcases hin with hin | hin | ⟨t, s, heq, ht, hs⟩
    · exact hl.2 (hin.subset (by simp))
    · rcases List.infix_cons_iff.mp hin with hpre | hin
      · exact hfirst (List.cons_prefix_cons.mp hpre).2
      · exact ih (fun l' hl' => h l' (by simp [hl'])) hin
    · cases t with
      | nil =>
        rw [List.nil_append] at heq
        subst heq
        exact hfirst (List.cons_prefix_cons.mp hs).2
      | cons c t =>
        rw [List.cons_append] at heq
        exact hl.2 (ht.subset ((List.cons.inj heq).1 ▸ List.mem_cons_self))

/-- The converse, for a text that does not start with a newline. -/
theorem ne_nil_of_not_blank {tail : Text} :
    ∀ {ls : List Text}, (unlines ls ++ tail).head? ≠ some '\n' →
      ¬ ['\n', '\n'] <:+: unlines ls ++ tail → ∀ l ∈ ls, l ≠ [] := by
  intro ls
  induction ls with
  | nil => simp
  | cons l ls ih =>
    intro hhead hblank
    have hrest : (unlines ls ++ tail).head? ≠ some '\n' := by
      intro h
      obtain ⟨s, hs⟩ := List.head?_eq_some_iff.mp h
      apply hblank
      rw [unlines_cons, List.append_assoc, List.cons_append, hs]
      exact ⟨l, s, by simp⟩
    have hin : unlines ls ++ tail <:+: unlines (l :: ls) ++ tail := by
      rw [unlines_cons, List.append_assoc, List.cons_append]
      exact ⟨l ++ ['\n'], [], by simp⟩
    intro l' hl'
    rcases List.mem_cons.mp hl' with rfl | hl'
    · rintro rfl
      exact hhead (by simp)
    · exact ih hrest (fun h => hblank (h.trans hin)) l' hl'

/-- A last part without a newline lies in the rest behind the last one. -/
theorem suffix_unlines {q tail : Text} (ls : List Text) (h : '\n' ∉ q)
    (hq : q <:+ unlines ls ++ tail) : q <:+ tail := by
  rcases List.suffix_or_suffix_of_suffix hq (List.suffix_append _ tail) with hqt | htq
  · exact hqt
  · obtain ⟨x, rfl⟩ := htq
    obtain ⟨y, hy⟩ := hq
    rw [← List.append_assoc, List.append_left_inj] at hy
    rcases List.eq_nil_or_concat ls with rfl | ⟨ls', l, rfl⟩
    · have hx : x = [] := by
        have := congrArg List.length hy
        simp [unlines] at this
        exact this.2
      rw [hx]
      exact List.suffix_refl _
    · rcases List.eq_nil_or_concat x with rfl | ⟨x', c, rfl⟩
      · exact List.suffix_refl _
      · have hlast := congrArg List.getLast? hy
        simp [unlines] at hlast
        exact absurd (by simp [hlast]) h

/-! ## Parts -/

theorem not_mem_of_mem_splitOn {c : Char} {s part : Text} (h : part ∈ s.splitOn c) : c ∉ part := by
  induction s generalizing part with
  | nil =>
    rw [List.splitOn_nil, List.mem_singleton] at h
    rw [h]
    exact List.not_mem_nil
  | cons x s ih =>
    rw [List.splitOn_cons_eq_if_modifyHead] at h
    split at h
    · rcases List.mem_cons.mp h with rfl | h
      · exact List.not_mem_nil
      · exact ih h
    · rename_i hx
      cases hs : s.splitOn c with
      | nil => exact absurd hs (List.splitOn_ne_nil c s)
      | cons part' parts =>
        rw [hs] at h ih
        rcases List.mem_cons.mp h with rfl | h
        · rw [List.mem_cons, not_or]
          exact ⟨fun hc => hx (by simp [hc]), ih List.mem_cons_self⟩
        · exact ih (List.mem_cons_of_mem _ h)

/-- What is not the separator is in one of the parts. -/
theorem exists_part {c x : Char} (hx : x ≠ c) {s : Text} (h : x ∈ s) :
    ∃ part ∈ s.splitOn c, x ∈ part := by
  induction s with
  | nil => cases h
  | cons y s ih =>
    rw [List.splitOn_cons_eq_if_modifyHead]
    split
    · rename_i hy
      rcases List.mem_cons.mp h with rfl | h
      · exact absurd (by simpa using hy) hx
      · obtain ⟨part, hpart, hmem⟩ := ih h
        exact ⟨part, List.mem_cons_of_mem _ hpart, hmem⟩
    · cases hs : s.splitOn c with
      | nil => exact absurd hs (List.splitOn_ne_nil c s)
      | cons part' parts =>
        rw [hs] at ih
        rcases List.mem_cons.mp h with rfl | h
        · exact ⟨x :: part', List.mem_cons_self, List.mem_cons_self⟩
        · obtain ⟨part, hpart, hmem⟩ := ih h
          rcases List.mem_cons.mp hpart with rfl | hpart
          · exact ⟨y :: part, List.mem_cons_self, List.mem_cons_of_mem _ hmem⟩
          · exact ⟨part, List.mem_cons_of_mem _ hpart, hmem⟩

end Text
end Kit
