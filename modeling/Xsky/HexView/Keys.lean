import Xsky.Kit.Runs
import Xsky.HexView.Cursor

/-!
# HexView.Keys

`client/CaptureDialog.cpp` over its `QHexView`, which is read only: a click on a frame opens it as a
document, one on the item of its tree selects bytes, and keys and the mouse move the cursor.

All positions are of columns there are. Of the lines that is so but for one key: a page up takes
`visibleLines` from a `quint64` before `std::max` compares it with 0. `lines_inside_iff`: the cursor
stays on the lines of the document if and only if each page up finds it on the first line, or not
nearer to it than a page.
-/

namespace Xsky
namespace HexView

open Kit

/-- `QHexRenderer::HexArea` and `QHexRenderer::AsciiArea` -/
inductive Area where
  | hex
  | ascii
deriving DecidableEq

inductive Move where
  | nextChar
  | previousChar
  | nextLine
  | previousLine
  | nextPage
  | previousPage
  | startOfDocument
  | endOfDocument
  | startOfLine
  | endOfLine

/-- A point in an editable area: the line it is at, and the cell counted from the left of the
area. -/
structure Hit where
  area : Area
  line : BitVec 64
  cell : Nat

structure View where
  document : Document
  cursor : QHexCursor
  selectedArea : Area
  /-- The tree has the item of the Ethernet header. -/
  tree : Bool

def View.new : View := ⟨.empty, .new, .hex, false⟩

/-- `sizeof( protocol_eth )` -/
def ethSize : Nat := 14

namespace View

def lastLine (v : View) : BitVec 64 := v.document.documentLastLine

/-- `select` or `moveTo` -/
def go (v : View) (select : Bool) (line : BitVec 64) (column nibbleindex : Int) : View :=
  { v with
    cursor := if select then v.cursor.select ⟨line, column, nibbleindex⟩
      else v.cursor.moveTo ⟨line, column, nibbleindex⟩ }

/-- With `rows` lines in the window. -/
def visibleLines (v : View) (rows : Nat) : BitVec 64 :=
  if BitVec.ofNat 64 rows ≤ v.document.documentLines then BitVec.ofNat 64 rows
  else v.document.documentLines

def clamp (v : View) (line : BitVec 64) : BitVec 64 :=
  if line ≤ v.lastLine then line else v.lastLine

/-- Through an `int`. -/
def viaInt (line : BitVec 64) : BitVec 64 := (line.setWidth 32).signExtend 64

def moveNext (v : View) (select : Bool) : View :=
  let line := v.cursor.position.line
  let column := v.cursor.position.column
  let lastcell := v.lastLine ≤ line ∧ v.document.documentLastColumn ≤ column
  let nibbleindex := v.cursor.position.nibbleindex
  if v.selectedArea = .ascii ∧ lastcell then v
  else if v.selectedArea = .hex ∧ lastcell ∧ nibbleindex = 0 then v
  else if v.selectedArea = .hex ∧ v.document.length ≤ v.cursor.position.offset ∧
      nibbleindex ≠ 0 then v
  else
    let next := if v.selectedArea = .hex then (nibbleindex + 1).tmod 2 else 1
    let column := if v.selectedArea = .ascii ∨ next ≠ 0 then column + 1 else column
    if column > hexLineWidth - 1 then v.go select (v.clamp (line + 1)) 0 1
    else v.go select line (min (hexLineWidth - 1) column) next

def movePrevious (v : View) (select : Bool) : View :=
  let line := v.cursor.position.line
  let column := v.cursor.position.column
  let firstcell := line = 0 ∧ column = 0
  let nibbleindex := v.cursor.position.nibbleindex
  if v.selectedArea = .ascii ∧ firstcell then v
  else if v.selectedArea = .hex ∧ firstcell ∧ nibbleindex ≠ 0 then v
  else
    let previous := if v.selectedArea = .hex then (nibbleindex - 1).tmod 2 else 1
    let column := if v.selectedArea = .ascii ∨ previous = 0 then column - 1 else column
    -- `std::max( quint64( 0 ), line - 1 )`
    if column < 0 then v.go select (line - 1) (hexLineWidth - 1) 0
    else v.go select line (max 0 column) previous

def processMove (v : View) (m : Move) (select : Bool) (rows : Nat) : View :=
  let line := v.cursor.position.line
  let column := v.cursor.position.column
  match m with
  | .nextChar => v.moveNext select
  | .previousChar => v.movePrevious select
  | .nextLine =>
    if v.lastLine = line then v else v.go select (viaInt (line + 1)) column 1
  | .previousLine => if line = 0 then v else v.go select (line - 1) column 1
  | .nextPage =>
    if v.lastLine = line then v
    else v.go select (viaInt (v.clamp (line + v.visibleLines rows))) column 1
  | .previousPage =>
    -- `std::max( quint64( 0 ), cur->currentLine() - this->visibleLines() )`
    if line = 0 then v else v.go select (line - v.visibleLines rows) column 1
  | .startOfDocument => if line = 0 then v else v.go select 0 0 1
  | .endOfDocument =>
    if v.lastLine = line then v
    else v.go select v.lastLine v.document.documentLastColumn 1
  | .startOfLine => v.go select line 0 1
  | .endOfLine =>
    if line = v.lastLine then v.go select line v.document.documentLastColumn 1
    else v.go select line (hexLineWidth - 1) 0

def hitTest (v : View) (hit : Hit) : QHexPosition :=
  let line := v.clamp hit.line
  let cell : Int := match hit.area with
    | .hex => (hit.cell / 3 : Nat)
    | .ascii => hit.cell
  let nibbleindex : Int := match hit.area with
    | .hex => if hit.cell % 3 = 0 then 1 else 0
    | .ascii => 1
  if line = v.lastLine then ⟨line, min cell (v.document.getLine line).length, nibbleindex⟩
  else ⟨line, min cell (hexLineWidth - 1), nibbleindex⟩

def mousePressEvent (v : View) (hit : Hit) : View :=
  { v with selectedArea := hit.area, cursor := v.cursor.moveTo (v.hitTest hit) }

/-- A move with the button held. -/
def mouseMoveEvent (v : View) (hit : Hit) : View :=
  let p := v.hitTest hit
  { v with cursor := v.cursor.select ⟨p.line, p.column, 0⟩ }

/-- `CreateTree`, with a document and a renderer of its own. -/
def onTableWidgetCellClicked (_ : View) (data : Document) : View := ⟨data, .new, .hex, true⟩

/-- The `QPoint` of an item is where its bytes begin and end. -/
def onTreeWidgetItemClicked (v : View) (x y : Nat) : View :=
  { v with
    cursor :=
      (v.cursor.moveTo
        ⟨BitVec.ofNat 64 (x / hexLineWidth), (x % hexLineWidth : Nat), 1⟩).select
        ⟨BitVec.ofNat 64 (y / hexLineWidth), (y % hexLineWidth : Nat), 1⟩ }

end View

inductive ViewStep where
  | cell (data : Document)
  | item
  | key (m : Move) (select : Bool) (rows : Nat)
  | press (hit : Hit)
  | drag (hit : Hit)

def View.after (v : View) : ViewStep → View
  | .cell data => v.onTableWidgetCellClicked data
  | .item => if v.tree then v.onTreeWidgetItemClicked 0 ethSize else v
  | .key m select rows => v.processMove m select rows
  | .press hit => v.mousePressEvent hit
  | .drag hit => v.mouseMoveEvent hit

def viewStep (v : View) (i : ViewStep) : Option View := some (v.after i)

/-! ## Where the cursor may be -/

structure QHexPosition.In (p : QHexPosition) (d : Document) : Prop where
  line : p.line ≤ d.documentLastLine
  column : 0 ≤ p.column ∧ p.column < hexLineWidth

/-- Both ends of the selection are on lines of the document. -/
structure View.Inside (v : View) : Prop where
  position : v.cursor.position.In v.document
  selection : v.cursor.selection.In v.document

/-- A page up from the first line, or from a page or more below it. -/
def PageInside (v : View) : ViewStep → Prop
  | .key .previousPage _ rows =>
    v.cursor.position.line = 0 ∨ v.visibleLines rows ≤ v.cursor.position.line
  | _ => True

variable {v : View}

theorem le_lastLine_iff (line : BitVec 64) :
    line ≤ v.lastLine ↔ line.toNat ≤ v.document.length / hexLineWidth := by
  rw [BitVec.le_def, View.lastLine, Document.documentLastLine_toNat]

theorem lastColumn_bounds :
    0 ≤ v.document.documentLastColumn ∧ v.document.documentLastColumn < hexLineWidth := by
  rw [Document.documentLastColumn_eq]
  unfold hexLineWidth
  omega

theorem clamp_le (line : BitVec 64) : v.clamp line ≤ v.lastLine := by
  unfold View.clamp
  split
  · assumption
  · exact BitVec.le_refl _

/-- The numbers of lines are too small for an `int` to make others of them. -/
theorem viaInt_of_le {line : BitVec 64} (h : line ≤ v.lastLine) : View.viaInt line = line := by
  have hsmall : line.toNat < 2 ^ 31 := by
    have hexact := v.document.exact
    rw [le_lastLine_iff] at h
    unfold Document.length hexLineWidth at h
    omega
  have hlow : (line.setWidth 32).toNat = line.toNat := by
    rw [BitVec.toNat_setWidth]
    omega
  have hmsb : (line.setWidth 32).msb = false := by
    rw [BitVec.msb_eq_false_iff_two_mul_lt, hlow]
    omega
  unfold View.viaInt
  rw [BitVec.signExtend_eq_setWidth_of_msb_false hmsb]
  apply BitVec.eq_of_toNat_eq
  rw [BitVec.toNat_setWidth, hlow]
  omega

theorem go_inside (h : v.Inside) (select : Bool) {line : BitVec 64} {column nibbleindex : Int}
    (hline : line ≤ v.lastLine) (hcolumn : 0 ≤ column ∧ column < hexLineWidth) :
    (v.go select line column nibbleindex).Inside := by
  unfold View.go
  cases select with
  | true => exact ⟨⟨hline, hcolumn⟩, h.selection⟩
  | false => exact ⟨⟨hline, hcolumn⟩, ⟨hline, hcolumn⟩⟩

theorem sub_one_le {line : BitVec 64} (h : line ≤ v.lastLine) (hpos : line ≠ 0) :
    line - 1 ≤ v.lastLine := by
  have hne : line.toNat ≠ 0 := by
    intro hzero
    exact hpos (BitVec.eq_of_toNat_eq hzero)
  rw [le_lastLine_iff] at h ⊢
  rw [BitVec.toNat_sub, show (1 : BitVec 64).toNat = 1 from rfl]
  omega

theorem moveNext_inside (h : v.Inside) (select : Bool) : (v.moveNext select).Inside := by
  have hcolumn := h.position.column
  unfold View.moveNext
  simp only
  split
  · exact h
  · split
    · exact h
    · split
      · exact h
      · generalize (if v.selectedArea = .hex then (v.cursor.position.nibbleindex + 1).tmod 2
          else 1) = next
        generalize hnext : (if v.selectedArea = .ascii ∨ next ≠ 0 then
          v.cursor.position.column + 1 else v.cursor.position.column) = column
        have hpos : 0 ≤ column := by
          rw [← hnext]
          split <;> omega
        split
        · exact go_inside h select (clamp_le _) (by decide)
        · refine go_inside h select h.position.line ?_
          unfold hexLineWidth at *
          omega

theorem movePrevious_inside (h : v.Inside) (select : Bool) : (v.movePrevious select).Inside := by
  have hcolumn := h.position.column
  unfold View.movePrevious
  simp only
  split
  · exact h
  · rename_i hascii
    split
    · exact h
    · rename_i hhex
      generalize hprevious : (if v.selectedArea = .hex then
        (v.cursor.position.nibbleindex - 1).tmod 2 else 1) = previous
      generalize hnext : (if v.selectedArea = .ascii ∨ previous = 0 then
        v.cursor.position.column - 1 else v.cursor.position.column) = column
      have hle : column < hexLineWidth := by
        rw [← hnext]
        split <;> omega
      split
      · rename_i hneg
        -- the column was 0, and the line was not
        refine go_inside h select (sub_one_le h.position.line fun hzero => ?_) (by decide)
        rw [← hnext] at hneg
        split at hneg
        · rename_i hback
          have hfirst : v.cursor.position.column = 0 := by omega
          cases harea : v.selectedArea with
          | ascii => exact hascii ⟨harea, hzero, hfirst⟩
          | hex =>
            have hnibble : v.cursor.position.nibbleindex = 0 := by
              refine Decidable.byContradiction fun hne => ?_
              exact hhex ⟨harea, ⟨hzero, hfirst⟩, hne⟩
            rw [if_pos harea, hnibble] at hprevious
            rcases hback with hback | hback
            · rw [harea] at hback
              cases hback
            · rw [← hprevious] at hback
              exact absurd hback (by decide)
        · omega
      · refine go_inside h select h.position.line ?_
        unfold hexLineWidth at *
        omega

theorem hitTest_in (hit : Hit) : (v.hitTest hit).In v.document := by
  have hlast := @lastColumn_bounds v
  have hclamp := @clamp_le v hit.line
  have hcell : (0 : Int) ≤ (match hit.area with
    | .hex => ((hit.cell / 3 : Nat) : Int)
    | .ascii => hit.cell) := by
    split <;> omega
  unfold View.hitTest
  simp only
  split
  · rename_i heq
    refine ⟨hclamp, ?_⟩
    have hlength : ((v.document.getLine (v.clamp hit.line)).length : Int) =
        v.document.documentLastColumn := by
      rw [heq]
      rfl
    simp only [hlength]
    omega
  · refine ⟨hclamp, ?_⟩
    simp only
    unfold hexLineWidth at *
    omega

theorem processMove_inside (h : v.Inside) (m : Move) (select : Bool) (rows : Nat)
    (hpage : PageInside v (.key m select rows)) : (v.processMove m select rows).Inside := by
  have hline := h.position.line
  have hcolumn := h.position.column
  have hfirst : (0 : Int) ≤ 0 ∧ (0 : Int) < hexLineWidth := by decide
  cases m with
  | nextChar => exact moveNext_inside h select
  | previousChar => exact movePrevious_inside h select
  | nextLine =>
    simp only [View.processMove]
    split
    · exact h
    · rename_i hnot
      have hnext : v.cursor.position.line + 1 ≤ v.lastLine := by
        have hne : v.lastLine.toNat ≠ v.cursor.position.line.toNat :=
          fun heq => hnot (BitVec.eq_of_toNat_eq heq)
        have hle : v.cursor.position.line.toNat ≤ v.lastLine.toNat := hline
        have hlt := v.lastLine.isLt
        rw [BitVec.le_def, BitVec.toNat_add, show (1 : BitVec 64).toNat = 1 from rfl]
        omega
      rw [viaInt_of_le hnext]
      exact go_inside h select hnext hcolumn
  | previousLine =>
    simp only [View.processMove]
    split
    · exact h
    · rename_i hnot
      exact go_inside h select (sub_one_le hline hnot) hcolumn
  | nextPage =>
    simp only [View.processMove]
    split
    · exact h
    · rw [viaInt_of_le (clamp_le _)]
      exact go_inside h select (clamp_le _) hcolumn
  | previousPage =>
    simp only [View.processMove]
    split
    · exact h
    · rename_i hnot
      have hle := hpage.resolve_left hnot
      refine go_inside h select ?_ hcolumn
      have hline' : v.cursor.position.line.toNat ≤ v.lastLine.toNat := hline
      rw [BitVec.le_def] at hle ⊢
      rw [BitVec.toNat_sub_of_le (BitVec.le_def.mpr hle)]
      omega
  | startOfDocument =>
    simp only [View.processMove]
    split
    · exact h
    · exact go_inside h select (BitVec.le_def.mpr (Nat.zero_le _)) hfirst
  | endOfDocument =>
    simp only [View.processMove]
    split
    · exact h
    · exact go_inside h select (BitVec.le_refl _) lastColumn_bounds
  | startOfLine => exact go_inside h select hline hfirst
  | endOfLine =>
    simp only [View.processMove]
    split
    · exact go_inside h select hline lastColumn_bounds
    · exact go_inside h select hline (by decide)

/-- The first line is there, whatever the document. -/
theorem first_in (d : Document) (column nibbleindex : Int)
    (h : 0 ≤ column ∧ column < hexLineWidth) : (QHexPosition.mk 0 column nibbleindex).In d :=
  ⟨BitVec.le_def.mpr (Nat.zero_le _), h⟩

theorem new_inside (d : Document) (area : Area) (tree : Bool) :
    (View.mk d .new area tree).Inside :=
  ⟨first_in d 0 1 (by decide), first_in d 0 1 (by decide)⟩

theorem viewStep_inside (v : View) (i : ViewStep) (h : v.Inside) (hpage : PageInside v i) :
    ∃ v', viewStep v i = some v' ∧ v'.Inside := by
  refine ⟨v.after i, rfl, ?_⟩
  cases i with
  | cell data => exact new_inside data .hex true
  | item =>
    simp only [View.after]
    split
    · -- the header of 14 bytes is in the first line
      exact ⟨first_in v.document 14 1 (by decide), first_in v.document 0 1 (by decide)⟩
    · exact h
  | key m select rows => exact processMove_inside h m select rows hpage
  | press hit => exact ⟨hitTest_in hit, hitTest_in hit⟩
  | drag hit =>
    have hin := hitTest_in (v := v) hit
    exact ⟨⟨hin.line, hin.column⟩, h.selection⟩

theorem visibleLines_le (rows : Nat) :
    (v.visibleLines rows).toNat ≤ v.document.length / hexLineWidth + 1 := by
  rw [← v.document.documentLines_toNat]
  unfold View.visibleLines
  split
  · assumption
  · exact Nat.le_refl _

/-- A page up past the first line goes to the other end of `quint64`. -/
theorem page_wraps {rows : Nat} (hline : v.cursor.position.line ≠ 0)
    (hlt : ¬ v.visibleLines rows ≤ v.cursor.position.line) :
    ¬ v.cursor.position.line - v.visibleLines rows ≤ v.lastLine := by
  have hexact := v.document.exact
  have hvisible := visibleLines_le (v := v) rows
  have hpos : v.cursor.position.line.toNat ≠ 0 := fun hzero => hline (BitVec.eq_of_toNat_eq hzero)
  rw [BitVec.le_def] at hlt
  rw [le_lastLine_iff, BitVec.toNat_sub]
  unfold Document.length hexLineWidth at *
  omega

theorem pageInside_of_inside (v : View) (i : ViewStep) (v' : View) (_ : v.Inside)
    (hstep : viewStep v i = some v') (h' : v'.Inside) : PageInside v i := by
  cases hstep
  cases i with
  | key m select rows =>
    cases m with
    | previousPage =>
      refine Classical.byContradiction fun hnot => ?_
      unfold PageInside at hnot
      rw [not_or] at hnot
      refine page_wraps hnot.1 hnot.2 ?_
      have hline := h'.position.line
      simp only [View.after, View.processMove, if_neg hnot.1, View.go] at hline
      cases select with
      | true => exact hline
      | false => exact hline
    | _ => trivial
  | _ => trivial

/-- Over all clicks, keys and drags, on any frames. -/
theorem lines_inside_iff (is : List ViewStep) :
    Always viewStep View.Inside View.new is ↔ Along viewStep PageInside View.new is :=
  always_iff_along (fun _ h => h) viewStep_inside pageInside_of_inside
    (new_inside .empty .hex false)

end HexView
end Xsky
