import Xsky.Kit.Mem

/-!
# HexView.Cursor

The document, the cursor and the geometry of `client/QHexView`, as `CaptureDialog` uses them: a
`QMemoryBuffer` that is not edited, in lines of `DEFAULT_HEX_LINE_LENGTH`, whose width nothing
changes.

Lines are `quint64`. `documentLines` divides in `float`, which is exact up to the length a
`Document` may have.
-/

namespace Xsky
namespace HexView

open Kit

/-- `DEFAULT_HEX_LINE_LENGTH` -/
def hexLineWidth : Nat := 16

structure Document where
  bytes : List Byte
  exact : bytes.length < 2 ^ 24

def Document.empty : Document := ⟨[], by decide⟩

structure QHexPosition where
  line : BitVec 64
  column : Int
  nibbleindex : Int
deriving DecidableEq

def QHexPosition.offset (p : QHexPosition) : Int :=
  (p.line * BitVec.ofNat 64 hexLineWidth).toInt + p.column

structure QHexCursor where
  position : QHexPosition
  selection : QHexPosition
deriving DecidableEq

namespace QHexCursor

def new : QHexCursor := ⟨⟨0, 0, 1⟩, ⟨0, 0, 1⟩⟩

def moveTo (_ : QHexCursor) (p : QHexPosition) : QHexCursor := ⟨p, p⟩

def select (c : QHexCursor) (p : QHexPosition) : QHexCursor := { c with position := p }

end QHexCursor

namespace Document

def length (d : Document) : Nat := d.bytes.length

/-- `QByteArray::mid` -/
def read (d : Document) (offset len : Nat) : List Byte := (d.bytes.drop offset).take len

/-- One place more, behind the last byte. -/
def rendererLength (d : Document) : Nat := d.length + 1

def documentLines (d : Document) : BitVec 64 :=
  BitVec.ofNat 64 ((d.rendererLength + (hexLineWidth - 1)) / hexLineWidth)

def documentLastLine (d : Document) : BitVec 64 := d.documentLines - 1

def getLine (d : Document) (line : BitVec 64) : List Byte :=
  d.read (line * BitVec.ofNat 64 hexLineWidth).toNat hexLineWidth

def documentLastColumn (d : Document) : Int := (d.getLine d.documentLastLine).length

theorem documentLines_toNat (d : Document) :
    d.documentLines.toNat = d.length / hexLineWidth + 1 := by
  have h := d.exact
  unfold documentLines rendererLength length hexLineWidth
  rw [BitVec.toNat_ofNat, Nat.mod_eq_of_lt]
  · omega
  · omega

theorem documentLastLine_toNat (d : Document) :
    d.documentLastLine.toNat = d.length / hexLineWidth := by
  have h := d.exact
  have hlines := d.documentLines_toNat
  unfold length hexLineWidth at *
  unfold documentLastLine
  rw [BitVec.toNat_sub, hlines, show (1 : BitVec 64).toNat = 1 from rfl]
  omega

theorem documentLastColumn_eq (d : Document) : d.documentLastColumn = d.length % hexLineWidth := by
  have h := d.exact
  have hlast := d.documentLastLine_toNat
  unfold length hexLineWidth at *
  unfold documentLastColumn getLine read hexLineWidth
  rw [BitVec.toNat_mul, hlast, List.length_take, List.length_drop, BitVec.toNat_ofNat,
    Nat.mod_eq_of_lt (a := _ * _)]
  · omega
  · omega

end Document

theorem offset_of_small {p : QHexPosition} (h : p.line.toNat < 2 ^ 32) :
    p.offset = p.line.toNat * hexLineWidth + p.column := by
  have hmul : (p.line * BitVec.ofNat 64 hexLineWidth).toNat = p.line.toNat * hexLineWidth := by
    rw [BitVec.toNat_mul]
    unfold hexLineWidth
    simp only [BitVec.toNat_ofNat]
    omega
  unfold QHexPosition.offset
  rw [BitVec.toInt_eq_toNat_of_lt, hmul]
  · unfold hexLineWidth
    omega
  · rw [hmul]
    unfold hexLineWidth
    omega

end HexView
end Xsky
