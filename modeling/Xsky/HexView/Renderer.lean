import Xsky.Kit.Pick
import Xsky.HexView.Clipboard

/-!
# HexView.Renderer

The texts of `QHexRenderer`, line by line, and what of them `applySelection` marks as selected.

What `QTextCursor::setPosition` does with a place outside the text is a parameter. Where it leaves
the cursor, a selection that starts so far behind the last byte is marked from where
`applyBasicStyle` has left it: at the last byte of the line that it has styled, which is one of 0 or
0xFF.

`selection_seen_iff`: the bytes that are seen as selected are the selected ones, but for that, as
long as there is no metadata and the cursor is not drawn over them.
-/

namespace Xsky
namespace HexView

open Kit

/-! ## Text -/

/-- In a text of so many characters. -/
structure QTextCursor where
  anchor : Nat
  position : Nat
deriving DecidableEq

/-- What `QTextCursor::setPosition` makes of a cursor, the length of its text and a position out of
it. -/
abbrev Refusal := QTextCursor → Nat → Int → QTextCursor

/-- The cursor stays where it is. -/
def Refusal.Keeps (refused : Refusal) : Prop :=
  ∀ c (length : Nat) (pos : Int), ¬ (0 ≤ pos ∧ pos ≤ length) → refused c length pos = c

namespace QTextCursor

/-- Behind the text it has inserted. -/
def behind (length : Nat) : QTextCursor := ⟨length, length⟩

def setPosition (refused : Refusal) (c : QTextCursor) (length : Nat) (pos : Int) : QTextCursor :=
  if 0 ≤ pos ∧ pos ≤ length then ⟨pos.toNat, pos.toNat⟩ else refused c length pos

/-- `Right`, with the anchor kept. -/
def right (c : QTextCursor) (length : Nat) (n : Int) : QTextCursor :=
  { c with position := min (c.position + n.toNat) length }

/-- `Left`, with the anchor kept. -/
def left (c : QTextCursor) (n : Nat) : QTextCursor := { c with position := c.position - n }

def endOfLine (c : QTextCursor) (length : Nat) : QTextCursor := { c with position := length }

/-- The character is between the anchor and the position. -/
def Covers (c : QTextCursor) (x : Nat) : Prop :=
  min c.anchor c.position ≤ x ∧ x < max c.anchor c.position

instance (c : QTextCursor) (x : Nat) : Decidable (c.Covers x) :=
  inferInstanceAs (Decidable (_ ∧ _))

end QTextCursor

/-- `Factor`: the characters of a byte, with those in between. -/
def factor : Area → Nat
  | .hex => 3
  | .ascii => 1

/-- Those of the byte itself. -/
def glyphs : Area → Nat
  | .hex => 2
  | .ascii => 1

namespace Document

def hexString (d : Document) (line : BitVec 64) : List Byte :=
  (d.getLine line).flatMap fun b : Byte => [hexDigit (b >>> 4), hexDigit (b &&& 0x0F), 0x20]

/-- With `HEX_UNPRINTABLE_CHAR`. -/
def asciiString (d : Document) (line : BitVec 64) : List Byte :=
  (d.getLine line).map fun b : Byte => if 0x20 ≤ b ∧ b ≤ 0x7E then b else 0x2E

/-- The text of a line in `drawHex` or `drawAscii`. -/
def drawn (d : Document) (area : Area) (line : BitVec 64) : List Byte :=
  (match area with
    | .hex => d.hexString line
    | .ascii => d.asciiString line) ++ if line = d.documentLastLine then [0x20] else []

end Document

/-- From the byte `i` of the line on. -/
def applyBasicStyle (refused : Refusal) (factor length : Nat) :
    QTextCursor → Nat → List Byte → QTextCursor
  | c, _, [] => c
  | c, i, b :: rawline =>
    let c := if b ≠ 0 ∧ b ≠ 0xFF then c
      else (c.setPosition refused length (i * factor : Nat)).right length factor
    applyBasicStyle refused factor length c (i + 1) rawline

namespace QHexCursor

def isLineSelected (c : QHexCursor) (line : BitVec 64) : Bool :=
  let first := if c.position.line ≤ c.selection.line then c.position.line else c.selection.line
  let last := if c.position.line ≤ c.selection.line then c.selection.line else c.position.line
  c.hasSelection && !(line < first || line > last)

/-- What becomes highlighted, if any of the line does. -/
def applySelection (refused : Refusal) (c : QHexCursor) (textcursor : QTextCursor) (area : Area)
    (length : Nat) (line : BitVec 64) : Option QTextCursor :=
  if c.isLineSelected line = false then none
  else
    let startsel := c.selectionStart
    let endsel := c.selectionEnd
    let textcursor :=
      if startsel.line = endsel.line then
        (textcursor.setPosition refused length (startsel.column * factor area)).right length
          ((endsel.column - startsel.column + 1) * factor area)
      else
        let textcursor :=
          if line = startsel.line then
            textcursor.setPosition refused length (startsel.column * factor area)
          else textcursor.setPosition refused length 0
        if line = endsel.line then
          textcursor.right length ((endsel.column + 1) * factor area)
        else textcursor.endOfLine length
    some (if area = .hex then textcursor.left 1 else textcursor)

end QHexCursor

namespace View

section

variable (refused : Refusal) (v : View)

/-- The cursor of the text of a line behind `applyBasicStyle`; there is no metadata. -/
def styled (area : Area) (line : BitVec 64) : QTextCursor :=
  let length := (v.document.drawn area line).length
  applyBasicStyle refused (factor area) length (.behind length) 0 (v.document.getLine line)

def highlight (area : Area) (line : BitVec 64) : Option QTextCursor :=
  v.cursor.applySelection refused (v.styled refused area line) area
    (v.document.drawn area line).length line

/-- The byte of the line is all in the highlight. -/
def highlighted (area : Area) (line : BitVec 64) (column : Nat) : Bool :=
  match v.highlight refused area line with
  | none => false
  | some c => decide (∀ k < glyphs area, c.Covers (column * factor area + k))

/-- All the bytes that are seen as selected. -/
def seen (area : Area) : List Byte :=
  (List.range v.document.documentLines.toNat).flatMap fun line =>
    pick (v.highlighted refused area (BitVec.ofNat 64 line)) 0
      (v.document.getLine (BitVec.ofNat 64 line))

end

/-- The selection starts outside the text of its line, on which there is a byte with a style. -/
def Astray (v : View) (area : Area) : Prop :=
  let startsel := v.cursor.selectionStart
  v.cursor.hasSelection ∧
    ((v.document.drawn area startsel.line).length : Int) < startsel.column * factor area ∧
    ∃ b ∈ v.document.getLine startsel.line, b = 0 ∨ b = 0xFF

end View

/-- The characters of a byte. -/
def cell (area : Area) (b : Byte) : List Byte :=
  match area with
  | .hex => [hexDigit (b >>> 4), hexDigit (b &&& 0x0F), 0x20]
  | .ascii => [if 0x20 ≤ b ∧ b ≤ 0x7E then b else 0x2E]

/-! ## The text of a line -/

variable {d : Document} {v : View} {area : Area} {line : BitVec 64} {column : Nat}
  {refused : Refusal}

theorem drawn_cells (d : Document) (area : Area) (line : BitVec 64) :
    d.drawn area line =
      (d.getLine line).flatMap (cell area) ++ if line = d.documentLastLine then [0x20] else [] := by
  cases area with
  | hex => rfl
  | ascii =>
    unfold Document.drawn Document.asciiString
    rw [List.map_eq_flatMap]
    rfl

theorem length_cell (area : Area) (b : Byte) : (cell area b).length = factor area := by
  cases area with
  | hex => rfl
  | ascii => rfl

theorem length_cells (area : Area) (l : List Byte) :
    (l.flatMap (cell area)).length = l.length * factor area := by
  induction l with
  | nil => rw [List.length_nil, Nat.zero_mul]; rfl
  | cons b l ih =>
    rw [List.flatMap_cons, List.length_append, length_cell, ih, List.length_cons, Nat.succ_mul,
      Nat.add_comm]

theorem length_drawn (d : Document) (area : Area) (line : BitVec 64) :
    (d.drawn area line).length =
      (d.getLine line).length * factor area + if line = d.documentLastLine then 1 else 0 := by
  rw [drawn_cells, List.length_append, length_cells]
  congr 1
  split
  · rfl
  · rfl

theorem getLine_bytes (h : line ≤ d.documentLastLine) :
    d.getLine line = (d.bytes.drop (hexLineWidth * line.toNat)).take hexLineWidth := by
  have hexact := d.exact
  rw [BitVec.le_def, Document.documentLastLine_toNat] at h
  unfold Document.getLine Document.read
  rw [BitVec.toNat_mul, BitVec.toNat_ofNat, Nat.mul_comm, Nat.mod_eq_of_lt]
  · rfl
  · unfold Document.length hexLineWidth at *
    omega

theorem length_getLine (h : line ≤ d.documentLastLine) :
    (d.getLine line).length = min hexLineWidth (d.length - line.toNat * hexLineWidth) := by
  rw [getLine_bytes h, List.length_take, List.length_drop, Nat.mul_comm]
  rfl

/-- The cursor stays where it is, or is left at a byte with a style. -/
theorem applyBasicStyle_cases {f length : Nat} (c : QTextCursor) (i : Nat) (rawline : List Byte)
    (hfit : (i + rawline.length) * f ≤ length) :
    (applyBasicStyle refused f length c i rawline = c ∧ ∀ b ∈ rawline, ¬ (b = 0 ∨ b = 0xFF)) ∨
      ∃ j b, rawline[j]? = some b ∧ (b = 0 ∨ b = 0xFF) ∧
        applyBasicStyle refused f length c i rawline = ⟨(i + j) * f, (i + j) * f + f⟩ := by
  induction rawline generalizing c i with
  | nil =>
    refine .inl ⟨rfl, fun b hb => ?_⟩
    cases hb
  | cons b rawline ih =>
    rw [List.length_cons, ← Nat.add_assoc] at hfit
    have hrest : (i + 1 + rawline.length) * f ≤ length := by rwa [Nat.add_right_comm]
    have hbyte : i * f + f ≤ length := by
      refine Nat.le_trans ?_ hrest
      rw [← Nat.succ_mul]
      exact Nat.mul_le_mul_right f (by omega)
    have hstyle : b ≠ 0 ∧ b ≠ 0xFF ↔ ¬ (b = 0 ∨ b = 0xFF) := not_or.symm
    simp only [applyBasicStyle]
    rcases ih _ (i + 1) hrest with ⟨hsame, hnone⟩ | ⟨j, b', hj, hb', hat⟩
    · by_cases hplain : b ≠ 0 ∧ b ≠ 0xFF
      · refine .inl ⟨by rw [hsame, if_pos hplain], fun x hx => ?_⟩
        rcases List.mem_cons.mp hx with rfl | hx
        · exact hstyle.mp hplain
        · exact hnone x hx
      · refine .inr ⟨0, b, rfl, Decidable.not_not.mp (mt hstyle.mpr hplain), ?_⟩
        rw [hsame, if_neg hplain]
        unfold QTextCursor.setPosition QTextCursor.right
        rw [if_pos (by omega), Nat.add_zero, Int.toNat_natCast, Int.toNat_natCast,
          Nat.min_eq_left hbyte]
    · refine .inr ⟨j + 1, b', hj, hb', ?_⟩
      rw [hat, show i + 1 + j = i + (j + 1) by omega]

/-! ## The lines of a selection -/

theorem selectionStart_line (c : QHexCursor) :
    c.selectionStart.line.toNat = min c.position.line.toNat c.selection.line.toNat := by
  unfold QHexCursor.selectionStart
  simp only [BitVec.lt_def]
  split
  · omega
  · split
    · rename_i hsame
      rw [hsame.1, Nat.min_self]
    · omega

theorem selectionEnd_line (c : QHexCursor) :
    c.selectionEnd.line.toNat = max c.position.line.toNat c.selection.line.toNat := by
  unfold QHexCursor.selectionEnd
  simp only [GT.gt, BitVec.lt_def]
  split
  · omega
  · split
    · rename_i hsame
      rw [hsame.1, Nat.max_self]
    · omega

theorem isLineSelected_iff (c : QHexCursor) (line : BitVec 64) :
    c.isLineSelected line ↔ c.hasSelection ∧ c.selectionStart.line.toNat ≤ line.toNat ∧
      line.toNat ≤ c.selectionEnd.line.toNat := by
  rw [selectionStart_line, selectionEnd_line]
  unfold QHexCursor.isLineSelected
  simp only [BitVec.le_def, GT.gt, BitVec.lt_def, Bool.and_eq_true, Bool.not_eq_true',
    Bool.or_eq_false_iff, decide_eq_false_iff_not, Nat.not_lt]
  refine and_congr_right fun _ => ?_
  split
  · omega
  · omega

theorem setPosition_taken (refused : Refusal) (c : QTextCursor) {length : Nat} {pos : Int}
    (hpos : 0 ≤ pos) (hle : pos ≤ length) : c.setPosition refused length pos = ⟨pos.toNat, pos.toNat⟩ :=
  if_pos ⟨hpos, hle⟩

/-- The blank behind a byte does not count. -/
theorem glyphs_iff (c : QTextCursor) (h : c.anchor ≤ c.position) (area : Area) (column : Nat) :
    (∀ k < glyphs area,
        (if area = .hex then c.left 1 else c).Covers (column * factor area + k)) ↔
      c.anchor ≤ column * factor area ∧ (column + 1) * factor area ≤ c.position := by
  unfold QTextCursor.Covers
  cases area with
  | hex =>
    simp only [if_true, QTextCursor.left, factor, glyphs]
    constructor
    · intro hall
      have hfirst := hall 0 (by decide)
      have hlast := hall 1 (by decide)
      omega
    · intro hin k hk
      omega
  | ascii =>
    simp only [reduceCtorEq, if_false, factor, glyphs]
    constructor
    · intro hall
      have hfirst := hall 0 (by decide)
      omega
    · intro hin k hk
      omega

/-- What there is to highlight of a line of the selection, with the blank behind the last byte. -/
def mark (c : QHexCursor) (area : Area) (length : Nat) (line : BitVec 64) : QTextCursor where
  anchor :=
    if line = c.selectionStart.line then c.selectionStart.column.toNat * factor area else 0
  position :=
    if line = c.selectionEnd.line then
      min ((c.selectionEnd.column + 1).toNat * factor area) length
    else length

theorem applySelection_mark (h : v.Inside) (textcursor : QTextCursor) (area : Area) {length : Nat}
    (hin : v.cursor.isLineSelected line = true)
    (htaken : line = v.cursor.selectionStart.line →
      v.cursor.selectionStart.column * factor area ≤ length) :
    v.cursor.applySelection refused textcursor area length line =
      some (if area = .hex then (mark v.cursor area length line).left 1
        else mark v.cursor area length line) := by
  have hstart := (selectionStart_in h).column
  have hend := (selectionEnd_in h).column
  have hle := selectionStart_le h
  rw [(selectionStart_in h).offset_eq, (selectionEnd_in h).offset_eq] at hle
  obtain ⟨_, hfirst, hlast⟩ := (isLineSelected_iff v.cursor line).mp hin
  have hfactor : (0 : Int) ≤ factor area := Int.natCast_nonneg _
  have hpos := Int.mul_nonneg hstart.1 hfactor
  unfold QHexCursor.applySelection mark
  rw [if_neg (by simp [hin])]
  generalize v.cursor.selectionStart = startsel at *
  generalize v.cursor.selectionEnd = endsel at *
  by_cases hhead : line = startsel.line
  · subst hhead
    have hset := setPosition_taken refused textcursor hpos (htaken rfl)
    rw [Int.toNat_mul hstart.1 hfactor, Int.toNat_natCast] at hset
    by_cases hsame : startsel.line = endsel.line
    · rw [← hsame] at hle
      have hcolumns : startsel.column ≤ endsel.column := by omega
      have hwidth : startsel.column.toNat * factor area +
          ((endsel.column - startsel.column + 1) * factor area).toNat =
            (endsel.column + 1).toNat * factor area := by
        rw [Int.toNat_mul (by omega) hfactor, Int.toNat_natCast, ← Nat.add_mul]
        congr 1
        omega
      simp only [if_pos hsame, hset, QTextCursor.right, hwidth, if_true]
    · simp only [if_neg hsame, hset, QTextCursor.endOfLine, if_true]
  · have hset := setPosition_taken refused textcursor (Int.le_refl 0) (Int.natCast_nonneg length)
    have hsame : startsel.line ≠ endsel.line := by
      intro hsame
      rw [← hsame] at hlast
      exact hhead (BitVec.eq_of_toNat_eq (Nat.le_antisymm hlast hfirst))
    simp only [if_neg hsame, if_neg hhead, hset]
    by_cases htail : line = endsel.line
    · have hwidth : ((endsel.column + 1) * factor area).toNat =
          (endsel.column + 1).toNat * factor area := by
        rw [Int.toNat_mul (by omega) hfactor, Int.toNat_natCast]
      simp only [if_pos htail, QTextCursor.right, hwidth, Int.toNat_zero, Nat.zero_add]
    · simp only [if_neg htail, QTextCursor.endOfLine, Int.toNat_zero]

theorem factor_pos (area : Area) : 0 < factor area := by
  cases area with
  | hex => decide
  | ascii => decide

theorem mark_le (h : v.Inside) {length : Nat}
    (htaken : line = v.cursor.selectionStart.line →
      v.cursor.selectionStart.column * factor area ≤ length) :
    (mark v.cursor area length line).anchor ≤ (mark v.cursor area length line).position := by
  have hstart := (selectionStart_in h).column
  have hle := selectionStart_le h
  rw [(selectionStart_in h).offset_eq, (selectionEnd_in h).offset_eq] at hle
  unfold mark
  by_cases hhead : line = v.cursor.selectionStart.line
  · have hfits : v.cursor.selectionStart.column.toNat * factor area ≤ length := by
      rw [← Int.ofNat_le, Int.natCast_mul, Int.toNat_of_nonneg hstart.1]
      exact htaken hhead
    simp only [if_pos hhead]
    split
    · rename_i htail
      rw [← htail, ← hhead] at hle
      refine Nat.le_min.mpr ⟨Nat.mul_le_mul_right _ ?_, hfits⟩
      omega
    · exact hfits
  · simp only [if_neg hhead]
    exact Nat.zero_le _

theorem mark_anchor_iff (h : v.Inside) (length : Nat)
    (hle : v.cursor.selectionStart.line.toNat ≤ line.toNat) (column : Nat) :
    (mark v.cursor area length line).anchor ≤ column * factor area ↔
      v.cursor.selectionStart.offset ≤ (hexLineWidth * line.toNat + column : Nat) := by
  have hstart := (selectionStart_in h).column
  rw [(selectionStart_in h).offset_eq]
  unfold mark hexLineWidth at *
  by_cases hhead : line = v.cursor.selectionStart.line
  · simp only [if_pos hhead]
    rw [Nat.mul_le_mul_right_iff (factor_pos area), hhead]
    omega
  · have hne := mt BitVec.eq_of_toNat_eq (Ne.symm hhead)
    simp only [if_neg hhead]
    omega

theorem mark_position_iff (h : v.Inside) {length : Nat}
    (hle : line.toNat ≤ v.cursor.selectionEnd.line.toNat) (hcolumn : column < hexLineWidth)
    (hfits : (column + 1) * factor area ≤ length) :
    (column + 1) * factor area ≤ (mark v.cursor area length line).position ↔
      (hexLineWidth * line.toNat + column : Nat) ≤ v.cursor.selectionEnd.offset := by
  have hend := (selectionEnd_in h).column
  rw [(selectionEnd_in h).offset_eq]
  unfold mark hexLineWidth at *
  by_cases htail : line = v.cursor.selectionEnd.line
  · simp only [if_pos htail]
    rw [Nat.le_min, and_iff_left hfits, Nat.mul_le_mul_right_iff (factor_pos area), htail]
    omega
  · have hne := mt BitVec.eq_of_toNat_eq htail
    simp only [if_neg htail]
    omega

theorem not_highlighted (h : v.cursor.isLineSelected line = false) :
    v.highlighted refused area line column = false := by
  have hnone : v.cursor.applySelection refused (v.styled refused area line) area
      (v.document.drawn area line).length line = none := if_pos h
  unfold View.highlighted View.highlight
  rw [hnone]

/-- A selection that starts in the text of its line is highlighted from one end to the other. -/
theorem highlighted_iff (refused : Refusal) (h : v.Inside) (hselection : v.cursor.hasSelection)
    (htaken : v.cursor.selectionStart.column * factor area ≤
      (v.document.drawn area v.cursor.selectionStart.line).length)
    (hline : line ≤ v.document.documentLastLine)
    (hcolumn : column < (v.document.getLine line).length) :
    v.highlighted refused area line column ↔
      v.cursor.selectionStart.offset ≤ (hexLineWidth * line.toNat + column : Nat) ∧
        (hexLineWidth * line.toNat + column : Nat) ≤ v.cursor.selectionEnd.offset := by
  have hwidth : (v.document.getLine line).length ≤ hexLineWidth := by
    rw [length_getLine hline]
    omega
  have hfits : (column + 1) * factor area ≤ (v.document.drawn area line).length := by
    rw [length_drawn]
    exact Nat.le_trans (Nat.mul_le_mul_right _ hcolumn) (Nat.le_add_right _ _)
  by_cases hin : v.cursor.isLineSelected line = true
  · obtain ⟨_, hfirst, hlast⟩ := (isLineSelected_iff v.cursor line).mp hin
    have hhead : line = v.cursor.selectionStart.line →
        v.cursor.selectionStart.column * factor area ≤ (v.document.drawn area line).length := by
      intro hhead
      rw [hhead]
      exact htaken
    unfold View.highlighted View.highlight
    rw [applySelection_mark h _ area hin hhead]
    refine decide_eq_true_iff.trans ((glyphs_iff _ (mark_le h hhead) area column).trans ?_)
    exact and_congr (mark_anchor_iff h _ hfirst column)
      (mark_position_iff h hlast (Nat.lt_of_lt_of_le hcolumn hwidth) hfits)
  · rw [not_highlighted (Bool.not_eq_true _ ▸ hin)]
    refine iff_of_false Bool.false_ne_true fun hbetween => hin ?_
    have hstart := (selectionStart_in h).column
    have hend := (selectionEnd_in h).column
    rw [(selectionStart_in h).offset_eq, (selectionEnd_in h).offset_eq] at hbetween
    refine (isLineSelected_iff v.cursor line).mpr ⟨hselection, ?_⟩
    unfold hexLineWidth at *
    omega

/-! ## All lines -/

theorem lines_toNat {line : Nat} (h : line < d.documentLines.toNat) :
    (BitVec.ofNat 64 line).toNat = line ∧ BitVec.ofNat 64 line ≤ d.documentLastLine := by
  have hexact := d.exact
  rw [Document.documentLines_toNat] at h
  have hline : (BitVec.ofNat 64 line).toNat = line := by
    rw [BitVec.toNat_ofNat]
    refine Nat.mod_eq_of_lt ?_
    unfold Document.length hexLineWidth at h
    omega
  refine ⟨hline, ?_⟩
  rw [BitVec.le_def, hline, Document.documentLastLine_toNat]
  omega

theorem getLine_eq {line : Nat} (h : line < d.documentLines.toNat) :
    d.getLine (BitVec.ofNat 64 line) =
      (d.bytes.drop (hexLineWidth * line)).take hexLineWidth := by
  obtain ⟨hline, hle⟩ := lines_toNat h
  rw [getLine_bytes hle, hline]

/-- Lines of which nothing is highlighted. -/
theorem seen_eq_nil (h : ∀ line ≤ v.document.documentLastLine,
    ∀ column < (v.document.getLine line).length, v.highlighted refused area line column = false) :
    v.seen refused area = [] := by
  unfold View.seen
  refine List.flatMap_eq_nil_iff.mpr fun line hline => pick_none fun column hcolumn => ?_
  rw [Nat.zero_add]
  exact h _ (lines_toNat (List.mem_range.mp hline)).2 column hcolumn

theorem seen_unselected (h : v.cursor.hasSelection = false) : v.seen refused area = [] := by
  refine seen_eq_nil fun line _ column _ => not_highlighted ?_
  unfold QHexCursor.isLineSelected
  rw [h]
  rfl

theorem seen_taken (h : v.Inside) (hselection : v.cursor.hasSelection)
    (htaken : v.cursor.selectionStart.column * factor area ≤
      (v.document.drawn area v.cursor.selectionStart.line).length) :
    v.seen refused area = v.selectedBytes := by
  have hstart := In_offset_nonneg (selectionStart_in h)
  have hend := In_offset_nonneg (selectionEnd_in h)
  let a := v.cursor.selectionStart.offset.toNat
  let b := v.cursor.selectionEnd.offset.toNat + 1
  have hlines : v.seen refused area =
      (List.range v.document.documentLines.toNat).flatMap fun line =>
        pick (fun i => decide (a ≤ i ∧ i < b)) (hexLineWidth * line)
          ((v.document.bytes.drop (hexLineWidth * line)).take hexLineWidth) := by
    unfold View.seen
    rw [List.flatMap_def, List.flatMap_def]
    refine congrArg List.flatten (List.map_congr_left fun line hline => ?_)
    have hlt := List.mem_range.mp hline
    obtain ⟨htoNat, hle⟩ := lines_toNat hlt
    rw [← getLine_eq hlt]
    refine pick_congr fun column hcolumn => ?_
    have hiff := highlighted_iff refused h hselection htaken hle hcolumn
    rw [htoNat] at hiff
    rw [Nat.zero_add, Bool.eq_iff_iff, hiff, decide_eq_true_iff]
    omega
  have hall : v.document.bytes.length ≤ hexLineWidth * v.document.documentLines.toNat := by
    rw [Document.documentLines_toNat]
    unfold Document.length hexLineWidth
    omega
  rw [hlines, pick_lines, List.take_of_length_le hall, pick_interval]
  unfold View.selectedBytes QMemoryBuffer.read QHexCursor.selectionLength
  rw [if_pos hselection]
  congr 1
  omega

/-! ## Behind the text -/

/-- Where there is text, there are bytes. -/
theorem length_lt_of_refused {p : QHexPosition}
    (hout : ((d.drawn area p.line).length : Int) < p.column * factor area) :
    ((d.getLine p.line).length : Int) < p.column := by
  refine Int.lt_of_not_ge fun hle => ?_
  have hmul := Int.mul_le_mul_of_nonneg_right hle (Int.natCast_nonneg (factor area))
  have hlength := length_drawn d area p.line
  omega

/-- A selection that starts there is all on the last line. -/
theorem refused_lines (h : v.Inside)
    (hout : ((v.document.drawn area v.cursor.selectionStart.line).length : Int) <
      v.cursor.selectionStart.column * factor area) :
    v.cursor.selectionStart.line = v.document.documentLastLine ∧
      v.cursor.selectionEnd.line = v.document.documentLastLine := by
  have hstart := selectionStart_in h
  have hend := selectionEnd_in h
  have hcolumn := hstart.column
  have hshort := length_lt_of_refused hout
  have hlines : v.cursor.selectionStart.line.toNat ≤ v.cursor.selectionEnd.line.toNat := by
    rw [selectionStart_line, selectionEnd_line]
    omega
  have hlast : v.document.documentLastLine.toNat ≤ v.cursor.selectionStart.line.toNat := by
    refine Nat.le_of_not_lt fun hlt => ?_
    -- a line before the last one is full
    rw [Document.documentLastLine_toNat] at hlt
    rw [length_getLine hstart.line] at hshort
    unfold hexLineWidth at *
    omega
  have hstartle := BitVec.le_def.mp hstart.line
  have hendle := BitVec.le_def.mp hend.line
  exact ⟨BitVec.eq_of_toNat_eq (by omega), BitVec.eq_of_toNat_eq (by omega)⟩

theorem refused_selectedBytes (h : v.Inside)
    (hout : ((v.document.drawn area v.cursor.selectionStart.line).length : Int) <
      v.cursor.selectionStart.column * factor area) : v.selectedBytes = [] := by
  have hstart := selectionStart_in h
  have hcolumn := hstart.column
  have hshort := length_lt_of_refused hout
  have hbehind : v.document.bytes.length ≤ v.cursor.selectionStart.offset.toNat := by
    rw [length_getLine hstart.line] at hshort
    rw [hstart.offset_eq]
    unfold Document.length hexLineWidth at *
    omega
  unfold View.selectedBytes QMemoryBuffer.read
  rw [List.drop_of_length_le hbehind, List.take_nil, ite_self]

theorem refused_highlighted_iff (hkeeps : refused.Keeps) (h : v.Inside)
    (hselection : v.cursor.hasSelection)
    (hout : ((v.document.drawn area v.cursor.selectionStart.line).length : Int) <
      v.cursor.selectionStart.column * factor area)
    {a p : Nat} (hstyled : v.styled refused area v.document.documentLastLine = ⟨a, p⟩) (hle : a ≤ p)
    (hfits : p ≤ (v.document.drawn area v.document.documentLastLine).length) (column : Nat) :
    v.highlighted refused area v.document.documentLastLine column ↔
      a ≤ column * factor area ∧ (column + 1) * factor area ≤
        min (p + ((v.cursor.selectionEnd.column - v.cursor.selectionStart.column + 1) *
          factor area).toNat) (v.document.drawn area v.document.documentLastLine).length := by
  obtain ⟨hstart, hend⟩ := refused_lines h hout
  have hin : v.cursor.isLineSelected v.document.documentLastLine = true := by
    refine (isLineSelected_iff _ _).mpr ⟨hselection, ?_⟩
    rw [hstart, hend]
    omega
  rw [hstart] at hout
  have hset (c : QTextCursor) :
      c.setPosition refused (v.document.drawn area v.document.documentLastLine).length
        (v.cursor.selectionStart.column * factor area) = c :=
    (if_neg (by omega)).trans (hkeeps c (v.document.drawn area v.document.documentLastLine).length
      (v.cursor.selectionStart.column * factor area) (by omega))
  unfold View.highlighted View.highlight QHexCursor.applySelection
  rw [if_neg (by simp [hin])]
  simp only [hstart, hend, if_true, hset, hstyled]
  refine decide_eq_true_iff.trans (glyphs_iff _ ?_ area column)
  unfold QTextCursor.right
  dsimp only
  omega

/-- What `applyBasicStyle` leaves to a selection that starts behind the text of its line. -/
theorem refused_seen (hkeeps : refused.Keeps) (h : v.Inside) (hselection : v.cursor.hasSelection)
    (hout : ((v.document.drawn area v.cursor.selectionStart.line).length : Int) <
      v.cursor.selectionStart.column * factor area) :
    v.seen refused area = [] ↔ ∀ b ∈ v.document.getLine v.document.documentLastLine,
      ¬ (b = 0 ∨ b = 0xFF) := by
  obtain ⟨hstart, hend⟩ := refused_lines h hout
  have hlength := length_drawn v.document area v.document.documentLastLine
  have hpos := factor_pos area
  have hfit : (0 + (v.document.getLine v.document.documentLastLine).length) * factor area ≤
      (v.document.drawn area v.document.documentLastLine).length := by
    rw [Nat.zero_add]
    omega
  rcases applyBasicStyle_cases (.behind (v.document.drawn area v.document.documentLastLine).length)
    0 _ hfit with ⟨hstyled, hnone⟩ | ⟨j, b, hj, hb, hstyled⟩
  · refine iff_of_true (seen_eq_nil fun line _ column hcolumn => ?_) hnone
    rw [← Bool.not_eq_true]
    intro hhighlighted
    by_cases hline : line = v.document.documentLastLine
    · subst hline
      have hbehind := ((refused_highlighted_iff hkeeps h hselection hout hstyled (Nat.le_refl _)
        (Nat.le_refl _) column).mp hhighlighted).1
      have hmul := Nat.mul_lt_mul_of_pos_right hcolumn hpos
      omega
    · have hout : v.cursor.isLineSelected line = false := by
        rw [← Bool.not_eq_true]
        intro hin
        have hlines := (isLineSelected_iff _ _).mp hin
        rw [hstart, hend] at hlines
        exact hline (BitVec.eq_of_toNat_eq (Nat.le_antisymm hlines.2.2 hlines.2.1))
      rw [not_highlighted hout] at hhighlighted
      cases hhighlighted
  · refine iff_of_false ?_ fun hnone => hnone b (List.mem_of_getElem? hj) hb
    obtain ⟨hlt, _⟩ := List.getElem?_eq_some_iff.mp hj
    have hbyte : (j + 1) * factor area ≤
        (v.document.drawn area v.document.documentLastLine).length := by
      have hmul := Nat.mul_le_mul_right (factor area) (Nat.succ_le_of_lt hlt)
      rw [Nat.succ_eq_add_one] at hmul
      omega
    rw [Nat.zero_add, ← Nat.succ_mul] at hstyled
    have hhighlighted := (refused_highlighted_iff hkeeps h hselection hout hstyled
      (Nat.mul_le_mul_right _ (Nat.le_succ j)) hbyte j).mpr
        ⟨Nat.le_refl _, Nat.le_min.mpr ⟨Nat.le_add_right _ _, hbyte⟩⟩
    intro hnil
    have hlast : v.document.documentLastLine.toNat < v.document.documentLines.toNat := by
      rw [Document.documentLastLine_toNat, Document.documentLines_toNat]
      omega
    have hline := List.flatMap_eq_nil_iff.mp hnil _ (List.mem_range.mpr hlast)
    rw [BitVec.ofNat_toNat, BitVec.setWidth_eq] at hline
    exact pick_ne_nil hlt (by rwa [Nat.zero_add]) hline

/-- While the selection is on lines of the document, the bytes that are seen as selected are the
selected ones, if and only if it does not start outside the text of its line with a byte of 0 or
0xFF on it. -/
theorem selection_seen_iff {refused : Refusal} (hkeeps : refused.Keeps) (v : View) (area : Area)
    (h : v.Inside) :
    v.seen refused area = v.selectedBytes ↔ ¬ v.Astray area := by
  simp only [View.Astray]
  by_cases hselection : v.cursor.hasSelection = true
  · by_cases htaken : v.cursor.selectionStart.column * factor area ≤
        (v.document.drawn area v.cursor.selectionStart.line).length
    · refine iff_of_true (seen_taken h hselection htaken) fun hastray => ?_
      exact absurd hastray.2.1 (Int.not_lt.mpr htaken)
    · have hout := Int.not_le.mp htaken
      rw [refused_selectedBytes h hout, refused_seen hkeeps h hselection hout,
        ← (refused_lines h hout).1]
      constructor
      · intro hnone hastray
        obtain ⟨b, hb, hstyle⟩ := hastray.2.2
        exact hnone b hb hstyle
      · intro hnot b hb hstyle
        exact hnot ⟨hselection, hout, b, hb, hstyle⟩
  · have hnone : v.selectedBytes = [] := if_neg hselection
    rw [hnone]
    refine iff_of_true (seen_unselected (by simpa using hselection)) fun hastray => ?_
    exact hselection hastray.1

/-- From byte 10 a line down, behind the two bytes of the last line, and back by a byte. -/
theorem selection_seen_down :
    let v := [ViewStep.press ⟨.hex, 0, 30⟩, .key .nextLine false 5, .key .previousChar true 5].foldl
      View.after ⟨⟨List.replicate 17 0x41 ++ [0x00], by decide⟩, .new, .hex, true⟩
    v.seen (fun c _ _ => c) .hex = v.selectedBytes ↔ ¬ v.Astray .hex :=
  selection_seen_iff (fun _ _ _ _ => rfl) _ .hex ⟨⟨by decide, by decide⟩, ⟨by decide, by decide⟩⟩

end HexView
end Xsky
