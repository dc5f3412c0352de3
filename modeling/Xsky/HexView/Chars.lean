import Xsky.HexView.Keys

/-!
# HexView.Chars

The keys for the next and the previous character. In the hexadecimal area each goes half a byte, and
in the other one a byte, over the ends of lines, up to the place behind the last byte.

`chars_walk`: the place after any of these keys is that of a counter with these bounds. The first
half of a byte has the index 1, or -1 if the cursor came from the right.
-/

namespace Xsky
namespace HexView

open Kit

/-- The number of the half byte. -/
def QHexPosition.half (p : QHexPosition) : Int :=
  2 * p.offset + (if p.nibbleindex = 0 then 1 else 0)

/-- What a key counts in the area selected. -/
def View.place (v : View) : Int :=
  match v.selectedArea with
  | .hex => v.cursor.position.half
  | .ascii => v.cursor.position.offset

/-- The place behind the last byte. -/
def View.placeEnd (v : View) : Int :=
  match v.selectedArea with
  | .hex => 2 * v.document.length
  | .ascii => v.document.length

/-- One step of the counter. -/
def walk (last : Int) (place : Int) (forward : Bool) : Int :=
  if forward then if place < last then place + 1 else place
  else if 0 < place then place - 1 else place

/-- A byte of the document, or the place behind the last one. -/
structure View.OnChars (v : View) : Prop where
  inside : v.cursor.position.In v.document
  offset : v.cursor.position.offset ≤ v.document.length
  nibble : v.cursor.position.nibbleindex = -1 ∨ v.cursor.position.nibbleindex = 0 ∨
    v.cursor.position.nibbleindex = 1

variable {v : View}

@[simp] theorem go_position (select : Bool) (line : BitVec 64) (column nibbleindex : Int) :
    (v.go select line column nibbleindex).cursor.position = ⟨line, column, nibbleindex⟩ := by
  cases select <;> rfl

@[simp] theorem go_document (select : Bool) (line : BitVec 64) (column nibbleindex : Int) :
    (v.go select line column nibbleindex).document = v.document := rfl

@[simp] theorem go_selectedArea (select : Bool) (line : BitVec 64) (column nibbleindex : Int) :
    (v.go select line column nibbleindex).selectedArea = v.selectedArea := rfl

theorem QHexPosition.In.offset_eq {p : QHexPosition} {d : Document} (h : p.In d) :
    p.offset = p.line.toNat * hexLineWidth + p.column := by
  have hexact := d.exact
  have hline := h.line
  rw [BitVec.le_def, d.documentLastLine_toNat] at hline
  apply offset_of_small
  unfold Document.length hexLineWidth at hline
  omega

/-- The last cell is the one behind the last byte. -/
theorem lastcell_iff (h : v.OnChars) :
    (v.lastLine ≤ v.cursor.position.line ∧
        v.document.documentLastColumn ≤ v.cursor.position.column) ↔
      v.cursor.position.offset = v.document.length := by
  have hline := h.inside.line
  have hoffset := h.offset
  have hcolumn := h.inside.column
  rw [BitVec.le_def, v.document.documentLastLine_toNat] at hline
  rw [View.lastLine, BitVec.le_def, v.document.documentLastLine_toNat,
    v.document.documentLastColumn_eq]
  rw [h.inside.offset_eq] at hoffset ⊢
  unfold hexLineWidth at *
  constructor
  · rintro ⟨hle, hcol⟩
    omega
  · intro heq
    omega

/-- The move to a place of the document. -/
theorem go_onChars (select : Bool) {line : BitVec 64} {column nibbleindex : Int}
    (hin : (QHexPosition.mk line column nibbleindex).In v.document)
    (hoffset : line.toNat * hexLineWidth + column ≤ v.document.length)
    (hnibble : nibbleindex = -1 ∨ nibbleindex = 0 ∨ nibbleindex = 1) :
    (v.go select line column nibbleindex).OnChars := by
  refine ⟨by rw [go_position]; exact hin, ?_, by rw [go_position]; exact hnibble⟩
  rw [go_position, hin.offset_eq]
  exact hoffset

theorem go_place_hex (harea : v.selectedArea = .hex) (select : Bool) {line : BitVec 64}
    {column nibbleindex : Int}
    (hin : (QHexPosition.mk line column nibbleindex).In v.document) :
    (v.go select line column nibbleindex).place =
      2 * (line.toNat * hexLineWidth + column) + (if nibbleindex = 0 then 1 else 0) := by
  unfold View.place
  rw [go_selectedArea, harea]
  simp only [go_position, QHexPosition.half, hin.offset_eq]

theorem go_place_ascii (harea : v.selectedArea = .ascii) (select : Bool) {line : BitVec 64}
    {column nibbleindex : Int}
    (hin : (QHexPosition.mk line column nibbleindex).In v.document) :
    (v.go select line column nibbleindex).place = line.toNat * hexLineWidth + column := by
  unfold View.place
  rw [go_selectedArea, harea]
  simp only [go_position, hin.offset_eq]

/-- A line and a column, of the byte with this offset. -/
structure OfByte (v : View) (line : BitVec 64) (column offset : Int) : Prop where
  inLine : line ≤ v.lastLine ∧ 0 ≤ column ∧ column < hexLineWidth
  offset : line.toNat * hexLineWidth + column = offset

theorem OfByte.position {line : BitVec 64} {column offset : Int} (h : OfByte v line column offset)
    (nibbleindex : Int) : (QHexPosition.mk line column nibbleindex).In v.document :=
  ⟨h.inLine.1, h.inLine.2⟩

/-! ## To the right -/

/-- The byte to the right is in the line, or at the start of the next one. -/
theorem right_cases (h : v.OnChars) (hlt : v.cursor.position.offset < v.document.length) :
    (v.cursor.position.column + 1 > hexLineWidth - 1 ∧
        OfByte v (v.clamp (v.cursor.position.line + 1)) 0 (v.cursor.position.offset + 1)) ∨
      ¬ v.cursor.position.column + 1 > hexLineWidth - 1 ∧
        OfByte v v.cursor.position.line (v.cursor.position.column + 1)
          (v.cursor.position.offset + 1) := by
  have hexact := v.document.exact
  have hline := h.inside.line
  have hcolumn := h.inside.column
  have hoffset := h.inside.offset_eq
  by_cases hend : v.cursor.position.column + 1 > hexLineWidth - 1
  · refine .inl ⟨hend, ?_⟩
    have hnext : (v.cursor.position.line + 1).toNat = v.cursor.position.line.toNat + 1 := by
      rw [BitVec.le_def, v.document.documentLastLine_toNat] at hline
      rw [BitVec.toNat_add, show (1 : BitVec 64).toNat = 1 from rfl]
      unfold Document.length hexLineWidth at hline
      omega
    have hle : v.cursor.position.line + 1 ≤ v.lastLine := by
      rw [le_lastLine_iff, hnext]
      unfold hexLineWidth at *
      omega
    have hclamp : v.clamp (v.cursor.position.line + 1) = v.cursor.position.line + 1 := by
      unfold View.clamp
      rw [if_pos hle]
    rw [hclamp]
    refine ⟨⟨hle, by decide⟩, ?_⟩
    rw [hnext, hoffset]
    unfold hexLineWidth at *
    omega
  · refine .inr ⟨hend, ⟨hline, ?_⟩, ?_⟩
    · omega
    · rw [hoffset]
      omega

theorem moveNext_stays (h : v.OnChars) (hend : v.cursor.position.offset = v.document.length)
    (select : Bool) : v.moveNext select = v := by
  have hlast := (lastcell_iff h).mpr hend
  unfold View.moveNext
  cases harea : v.selectedArea with
  | ascii => simp [hlast]
  | hex =>
    by_cases hnibble : v.cursor.position.nibbleindex = 0
    · simp [hlast, hnibble]
    · simp [hend, hnibble]

/-- From the first half of a byte to the second. -/
theorem moveNext_low (h : v.OnChars) (hlt : v.cursor.position.offset < v.document.length)
    (harea : v.selectedArea = .hex) (hnibble : v.cursor.position.nibbleindex ≠ 0)
    (select : Bool) :
    v.moveNext select = v.go select v.cursor.position.line v.cursor.position.column 0 := by
  have hcolumn := h.inside.column
  have hlow : (v.cursor.position.nibbleindex + 1).tmod 2 = 0 := by
    rcases h.nibble with hn | hn | hn
    · rw [hn]
      rfl
    · exact absurd hn hnibble
    · rw [hn]
      rfl
  have hnot : ¬ v.cursor.position.column > hexLineWidth - 1 := by omega
  have hmin : min ((hexLineWidth : Int) - 1) v.cursor.position.column =
      v.cursor.position.column := by omega
  unfold View.moveNext
  simp [harea, hnibble, hlow, hnot, hmin, Int.not_le.mpr hlt]

/-- To the next byte. -/
theorem moveNext_right (h : v.OnChars) (hlt : v.cursor.position.offset < v.document.length)
    (hfrom : v.selectedArea = .ascii ∨ v.cursor.position.nibbleindex = 0) (select : Bool) :
    ∃ line column, OfByte v line column (v.cursor.position.offset + 1) ∧
      v.moveNext select = v.go select line column 1 := by
  have hcolumn := h.inside.column
  have hlast : ¬ (v.lastLine ≤ v.cursor.position.line ∧
      v.document.documentLastColumn ≤ v.cursor.position.column) := by
    rw [lastcell_iff h]
    omega
  have hmove : v.moveNext select =
      if v.cursor.position.column + 1 > hexLineWidth - 1 then
        v.go select (v.clamp (v.cursor.position.line + 1)) 0 1
      else v.go select v.cursor.position.line
        (min (hexLineWidth - 1) (v.cursor.position.column + 1)) 1 := by
    unfold View.moveNext
    cases harea : v.selectedArea with
    | ascii => simp [hlast]
    | hex =>
      rw [harea] at hfrom
      have hzero := hfrom.resolve_left (by simp)
      simp [hlast, hzero]
  rcases right_cases h hlt with ⟨hend, hright⟩ | ⟨hend, hright⟩
  · exact ⟨_, _, hright, by rw [hmove, if_pos hend]⟩
  · refine ⟨_, _, hright, ?_⟩
    have hmin : min ((hexLineWidth : Int) - 1) (v.cursor.position.column + 1) =
        v.cursor.position.column + 1 := by omega
    rw [hmove, if_neg hend, hmin]

/-! ## To the left -/

theorem firstcell_iff (h : v.OnChars) :
    (v.cursor.position.line = 0 ∧ v.cursor.position.column = 0) ↔
      v.cursor.position.offset = 0 := by
  have hcolumn := h.inside.column
  rw [h.inside.offset_eq]
  constructor
  · rintro ⟨hline, hzero⟩
    rw [hline, hzero]
    rfl
  · intro hzero
    unfold hexLineWidth at *
    refine ⟨BitVec.eq_of_toNat_eq ?_, by omega⟩
    show v.cursor.position.line.toNat = 0
    omega

/-- The byte to the left is in the line, or at the end of the one before. -/
theorem left_cases (h : v.OnChars) (hpos : 0 < v.cursor.position.offset) :
    (v.cursor.position.column - 1 < 0 ∧
        OfByte v (v.cursor.position.line - 1) (hexLineWidth - 1)
          (v.cursor.position.offset - 1)) ∨
      ¬ v.cursor.position.column - 1 < 0 ∧
        OfByte v v.cursor.position.line (v.cursor.position.column - 1)
          (v.cursor.position.offset - 1) := by
  have hline := h.inside.line
  have hcolumn := h.inside.column
  have hoffset := h.inside.offset_eq
  by_cases hend : v.cursor.position.column - 1 < 0
  · refine .inl ⟨hend, ?_⟩
    have hne : v.cursor.position.line ≠ 0 := by
      intro hzero
      have hfirst := (firstcell_iff h).mp ⟨hzero, by omega⟩
      omega
    have hpos' : v.cursor.position.line.toNat ≠ 0 :=
      fun hzero => hne (BitVec.eq_of_toNat_eq hzero)
    have hbefore : (v.cursor.position.line - 1).toNat = v.cursor.position.line.toNat - 1 := by
      rw [BitVec.toNat_sub, show (1 : BitVec 64).toNat = 1 from rfl]
      omega
    refine ⟨⟨sub_one_le hline hne, by decide⟩, ?_⟩
    rw [hbefore, hoffset]
    unfold hexLineWidth at *
    omega
  · refine .inr ⟨hend, ⟨hline, ?_⟩, ?_⟩
    · omega
    · rw [hoffset]
      omega

theorem movePrevious_stays (h : v.OnChars) (hstart : v.cursor.position.offset = 0)
    (hfrom : v.selectedArea = .ascii ∨ v.cursor.position.nibbleindex ≠ 0) (select : Bool) :
    v.movePrevious select = v := by
  have hfirst := (firstcell_iff h).mpr hstart
  unfold View.movePrevious
  cases harea : v.selectedArea with
  | ascii => simp [hfirst]
  | hex =>
    rw [harea] at hfrom
    have hne := hfrom.resolve_left (by simp)
    simp [hfirst, hne]

/-- From the second half of a byte to the first. -/
theorem movePrevious_high (h : v.OnChars) (harea : v.selectedArea = .hex)
    (hnibble : v.cursor.position.nibbleindex = 0) (select : Bool) :
    v.movePrevious select =
      v.go select v.cursor.position.line v.cursor.position.column (-1) := by
  have hcolumn := h.inside.column
  have hnot : ¬ v.cursor.position.column < 0 := by omega
  have hmax : max 0 v.cursor.position.column = v.cursor.position.column := by omega
  have hhigh : ((0 : Int) - 1).tmod 2 = -1 := rfl
  unfold View.movePrevious
  simp only [harea, hnibble, hhigh]
  simp [hnot, hmax]

/-- To the byte before, and in the hexadecimal area to its second half. -/
theorem movePrevious_left (h : v.OnChars) (hpos : 0 < v.cursor.position.offset)
    (hfrom : v.selectedArea = .ascii ∨ v.cursor.position.nibbleindex ≠ 0) (select : Bool) :
    ∃ line column nibbleindex, OfByte v line column (v.cursor.position.offset - 1) ∧
      (nibbleindex = 0 ∨ v.selectedArea = .ascii ∧ nibbleindex = 1) ∧
      v.movePrevious select = v.go select line column nibbleindex := by
  have hcolumn := h.inside.column
  have hfirst : ¬ (v.cursor.position.line = 0 ∧ v.cursor.position.column = 0) := by
    rw [firstcell_iff h]
    omega
  obtain ⟨previous, hprevious, hmove⟩ : ∃ previous : Int,
      (previous = 0 ∨ v.selectedArea = .ascii ∧ previous = 1) ∧
      v.movePrevious select =
        if v.cursor.position.column - 1 < 0 then
          v.go select (v.cursor.position.line - 1) (hexLineWidth - 1) 0
        else v.go select v.cursor.position.line (max 0 (v.cursor.position.column - 1))
          previous := by
    cases harea : v.selectedArea with
    | ascii =>
      refine ⟨1, .inr ⟨rfl, rfl⟩, ?_⟩
      unfold View.movePrevious
      simp only [harea, hfirst, and_false, false_and, if_false, true_or, if_true, reduceCtorEq]
    | hex =>
      rw [harea] at hfrom
      have hne := hfrom.resolve_left (by simp)
      have hlow : (v.cursor.position.nibbleindex - 1).tmod 2 = 0 := by
        rcases h.nibble with hn | hn | hn
        · rw [hn]
          rfl
        · exact absurd hn hne
        · rw [hn]
          rfl
      refine ⟨0, .inl rfl, ?_⟩
      unfold View.movePrevious
      simp only [harea, hfirst, hlow, and_false, false_and, if_false, or_true, if_true,
        reduceCtorEq]
  rcases left_cases h hpos with ⟨hend, hleft⟩ | ⟨hend, hleft⟩
  · exact ⟨_, _, 0, hleft, .inl rfl, by rw [hmove, if_pos hend]⟩
  · refine ⟨_, _, previous, hleft, hprevious, ?_⟩
    have hmax : max 0 (v.cursor.position.column - 1) = v.cursor.position.column - 1 := by omega
    rw [hmove, if_neg hend, hmax]

/-! ## One key -/

/-- A character key goes to a place of the same document in the same area. -/
structure Walked (v v' : View) (place : Int) : Prop where
  onChars : v'.OnChars
  document : v'.document = v.document
  selectedArea : v'.selectedArea = v.selectedArea
  place : v'.place = place

theorem place_hex (harea : v.selectedArea = .hex) :
    v.place = 2 * v.cursor.position.offset +
      (if v.cursor.position.nibbleindex = 0 then 1 else 0) := by
  unfold View.place
  rw [harea]
  rfl

theorem place_ascii (harea : v.selectedArea = .ascii) : v.place = v.cursor.position.offset := by
  unfold View.place
  rw [harea]

theorem Walked.of_go {line : BitVec 64} {column offset nibbleindex place : Int}
    (hbyte : OfByte v line column offset) (hoffset : offset ≤ v.document.length)
    (hnibble : nibbleindex = -1 ∨ nibbleindex = 0 ∨ nibbleindex = 1)
    (hplace : (match v.selectedArea with
      | .hex => 2 * offset + (if nibbleindex = 0 then 1 else 0)
      | .ascii => offset) = place) (select : Bool) :
    Walked v (v.go select line column nibbleindex) place := by
  have hin := hbyte.position nibbleindex
  refine ⟨go_onChars select hin ?_ hnibble, rfl, rfl, ?_⟩
  · rw [hbyte.offset]
    exact hoffset
  · rw [← hplace]
    cases harea : v.selectedArea with
    | hex => rw [go_place_hex harea select hin, hbyte.offset]
    | ascii => rw [go_place_ascii harea select hin, hbyte.offset]

theorem onChars_here (h : v.OnChars) :
    OfByte v v.cursor.position.line v.cursor.position.column v.cursor.position.offset :=
  ⟨⟨h.inside.line, h.inside.column⟩, h.inside.offset_eq.symm⟩

theorem moveNext_walked (h : v.OnChars) (select : Bool) :
    Walked v (v.moveNext select) (walk v.placeEnd v.place true) := by
  have hoffset := h.offset
  by_cases hend : v.cursor.position.offset = v.document.length
  · rw [moveNext_stays h hend]
    refine ⟨h, rfl, rfl, ?_⟩
    unfold walk View.placeEnd
    cases harea : v.selectedArea with
    | hex =>
      rw [place_hex harea]
      simp only [if_true]
      split <;> split <;> omega
    | ascii =>
      rw [place_ascii harea]
      simp only [if_true]
      omega
  · have hlt : v.cursor.position.offset < v.document.length := by omega
    cases harea : v.selectedArea with
    | ascii =>
      obtain ⟨line, column, hbyte, hmove⟩ := moveNext_right h hlt (.inl harea) select
      rw [hmove]
      refine Walked.of_go hbyte (by omega) (.inr (.inr rfl)) ?_ select
      unfold walk View.placeEnd
      simp only [harea, place_ascii harea, if_true, if_pos hlt]
    | hex =>
      by_cases hnibble : v.cursor.position.nibbleindex = 0
      · obtain ⟨line, column, hbyte, hmove⟩ := moveNext_right h hlt (.inr hnibble) select
        rw [hmove]
        refine Walked.of_go hbyte (by omega) (.inr (.inr rfl)) ?_ select
        unfold walk View.placeEnd
        simp only [harea, place_hex harea, if_true, if_pos hnibble]
        rw [if_neg (by decide), if_pos (by omega)]
        omega
      · rw [moveNext_low h hlt harea hnibble]
        refine Walked.of_go (onChars_here h) hoffset (.inr (.inl rfl)) ?_ select
        unfold walk View.placeEnd
        simp only [harea, place_hex harea, if_true, if_neg hnibble]
        rw [if_pos (by omega)]
        omega

theorem movePrevious_walked (h : v.OnChars) (select : Bool) :
    Walked v (v.movePrevious select) (walk v.placeEnd v.place false) := by
  have hoffset := h.offset
  have hnonneg : 0 ≤ v.cursor.position.offset := by
    have hcolumn := h.inside.column
    rw [h.inside.offset_eq]
    unfold hexLineWidth
    omega
  by_cases hnibble : v.selectedArea = .hex ∧ v.cursor.position.nibbleindex = 0
  · obtain ⟨harea, hzero⟩ := hnibble
    rw [movePrevious_high h harea hzero]
    refine Walked.of_go (onChars_here h) hoffset (.inl rfl) ?_ select
    unfold walk
    simp only [harea, place_hex harea, if_pos hzero, Bool.false_eq_true, if_false]
    rw [if_neg (by decide), if_pos (by omega)]
    omega
  · have hfrom : v.selectedArea = .ascii ∨ v.cursor.position.nibbleindex ≠ 0 := by
      cases harea : v.selectedArea with
      | ascii => exact .inl rfl
      | hex => exact .inr fun hzero => hnibble ⟨harea, hzero⟩
    by_cases hstart : v.cursor.position.offset = 0
    · rw [movePrevious_stays h hstart hfrom]
      refine ⟨h, rfl, rfl, ?_⟩
      unfold walk
      cases harea : v.selectedArea with
      | ascii => simp [place_ascii harea, hstart]
      | hex =>
        have hne : v.cursor.position.nibbleindex ≠ 0 := fun hzero => hnibble ⟨harea, hzero⟩
        simp [place_hex harea, hstart, hne]
    · obtain ⟨line, column, nibbleindex, hbyte, hn, hmove⟩ :=
        movePrevious_left h (by omega) hfrom select
      rw [hmove]
      refine Walked.of_go hbyte (by omega) (by omega) ?_ select
      unfold walk
      cases harea : v.selectedArea with
      | ascii =>
        simp only [place_ascii harea, Bool.false_eq_true, if_false]
        rw [if_pos (by omega)]
      | hex =>
        have hne : v.cursor.position.nibbleindex ≠ 0 := fun hzero => hnibble ⟨harea, hzero⟩
        have hzero : nibbleindex = 0 := hn.resolve_right fun hascii => by
          rw [harea] at hascii
          cases hascii.1
        simp only [place_hex harea, if_neg hne, if_pos hzero, Bool.false_eq_true, if_false]
        rw [if_pos (by omega)]
        omega

/-! ## Any keys -/

/-- A key to the next or the previous character, with or without selecting. -/
def charKey (rows : Nat) (key : Bool × Bool) : ViewStep :=
  .key (if key.1 then .nextChar else .previousChar) key.2 rows

theorem charKey_walked (h : v.OnChars) (rows : Nat) (key : Bool × Bool) :
    ∃ v', viewStep v (charKey rows key) = some v' ∧
      Walked v v' (walk v.placeEnd v.place key.1) := by
  obtain ⟨forward, select⟩ := key
  cases forward with
  | true => exact ⟨_, rfl, moveNext_walked h select⟩
  | false => exact ⟨_, rfl, movePrevious_walked h select⟩

theorem placeEnd_eq {v' : View} {place : Int} (h : Walked v v' place) :
    v'.placeEnd = v.placeEnd := by
  unfold View.placeEnd
  rw [h.selectedArea, h.document]

/-- From any byte of a document on. -/
theorem chars_walk (rows : Nat) (keys : List (Bool × Bool)) (v : View) (h : v.OnChars) :
    ∃ v', run viewStep v (keys.map (charKey rows)) = some v' ∧
      Walked v v' ((keys.map Prod.fst).foldl (walk v.placeEnd) v.place) := by
  induction keys generalizing v with
  | nil => exact ⟨v, rfl, h, rfl, rfl, rfl⟩
  | cons key keys ih =>
    obtain ⟨v1, hv1, h1⟩ := charKey_walked h rows key
    obtain ⟨v', hv', h'⟩ := ih v1 h1.onChars
    rw [placeEnd_eq h1, h1.place] at h'
    refine ⟨v', ?_, h'.onChars, h'.document.trans h1.document,
      h'.selectedArea.trans h1.selectedArea, h'.place⟩
    rw [List.map_cons, run_cons hv1, hv']

theorem new_onChars (d : Document) (area : Area) (tree : Bool) :
    (View.mk d .new area tree).OnChars where
  inside := (new_inside d area tree).position
  offset := Int.natCast_nonneg _
  nibble := .inr (.inr rfl)

/-- Over the two bytes of a frame and back. -/
theorem chars_walk_two :
    let v : View := ⟨⟨[0x0A, 0x0B], by decide⟩, .new, .hex, true⟩
    let keys := List.replicate 5 (true, true) ++ List.replicate 3 (false, false)
    ∃ v', run viewStep v (keys.map (charKey 20)) = some v' ∧
      Walked v v' ((keys.map Prod.fst).foldl (walk v.placeEnd) v.place) :=
  chars_walk 20 (List.replicate 5 (true, true) ++ List.replicate 3 (false, false))
    ⟨⟨[0x0A, 0x0B], by decide⟩, .new, .hex, true⟩ (new_onChars _ _ _)

end HexView
end Xsky
