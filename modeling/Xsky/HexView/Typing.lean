import Xsky.HexView.Chars
import Xsky.HexView.History

/-!
# HexView.Typing

`QHexView::processTextInput`: what the keys of a view that is not read only write, in either area
and either mode.

In the hexadecimal area a byte takes two keys. Where the document ends, and in the insert mode on
the first half of a byte, the first key makes a byte whose second half is 0, which the second key
then overwrites. A document must stay one that `Document` may be; `none` is one that has become too
long.

`type_writes`: the keys of any bytes write these bytes.
-/

namespace Xsky
namespace HexView

open Kit

namespace QHexCursor

def selectionStart (c : QHexCursor) : QHexPosition :=
  if c.position.line < c.selection.line then c.position
  else if c.position.line = c.selection.line ∧ c.position.column < c.selection.column then
    c.position
  else c.selection

def selectionEnd (c : QHexCursor) : QHexPosition :=
  if c.position.line > c.selection.line then c.position
  else if c.position.line = c.selection.line ∧ c.position.column > c.selection.column then
    c.position
  else c.selection

def selectionLength (c : QHexCursor) : Int := c.selectionEnd.offset - c.selectionStart.offset + 1

def hasSelection (c : QHexCursor) : Bool := c.position ≠ c.selection

end QHexCursor

def Document.edit (d : Document) (e : Edit) : Option Document :=
  let bytes := e.result d.bytes
  if h : bytes.length < 2 ^ 24 then some ⟨bytes, h⟩ else none

namespace View

def atEnd (v : View) : Bool := v.document.length ≤ v.cursor.position.offset

/-- An edit, which leaves the cursor where it is. -/
def edit (v : View) (e : Edit) : Option View :=
  (v.document.edit e).map fun d => { v with document := d }

def removeSelection (v : View) : Option View :=
  if v.cursor.hasSelection then
    (v.edit (.remove v.cursor.selectionStart.offset.toNat v.cursor.selectionLength.toNat)).map
      fun v => { v with cursor := { v.cursor with selection := v.cursor.position } }
  else some v

/-- `QString( key ).toUInt( nullptr, 16 )`, for what is taken for a hexadecimal digit. -/
def hexValue (key : Byte) : Option Byte :=
  if 0x30 ≤ key ∧ key ≤ 0x39 then some (key - 0x30)
  else if 0x61 ≤ key ∧ key ≤ 0x66 then some (key - 0x57)
  else none

/-- In the hexadecimal area, with nothing selected. -/
def typeHex (v : View) (inserts : Bool) (val : Byte) : Option View :=
  let offset := v.cursor.position.offset.toNat
  let nibbleindex := v.cursor.position.nibbleindex
  if v.atEnd ∨ (nibbleindex ≠ 0 ∧ inserts) then
    (v.edit (.insert offset [val <<< 4])).map fun v => v.moveNext false
  else
    let ch := v.document.bytes.getD offset 0
    let val := if nibbleindex ≠ 0 then (ch &&& 0x0F) ||| (val <<< 4) else (ch &&& 0xF0) ||| val
    (v.edit (.replace offset [val])).map fun v => v.moveNext false

/-- In the other one; `moveNext` is from the `Qt::Key_Right` that is sent. -/
def typeAscii (v : View) (inserts : Bool) (key : Byte) : Option View :=
  let offset := v.cursor.position.offset.toNat
  if ¬ v.atEnd ∧ ¬ inserts then
    (v.edit (.replace offset [key])).map fun v => v.moveNext false
  else (v.edit (.insert offset [key])).map fun v => v.moveNext false

def processTextInput (v : View) (inserts : Bool) (key : Byte) : Option View :=
  match v.selectedArea with
  | .hex =>
    match hexValue key with
    | some val => v.removeSelection.bind fun v => v.typeHex inserts val
    | none => some v
  | .ascii =>
    if 0x20 ≤ key ∧ key ≤ 0x7E then v.removeSelection.bind fun v => v.typeAscii inserts key
    else some v

end View

/-- The digit of a half byte. -/
def hexDigit (half : Byte) : Byte := if half < 10 then 0x30 + half else 0x57 + half

/-- The keys that write a byte. -/
def keysOf (area : Area) (b : Byte) : List Byte :=
  match area with
  | .hex => [hexDigit (b >>> 4), hexDigit (b &&& 0x0F)]
  | .ascii => [b]

/-- The document after `bytes` were written at `offset`, over what was there or in front of it. -/
def written (inserts : Bool) (document : List Byte) (offset : Nat) (bytes : List Byte) :
    List Byte :=
  document.take offset ++ bytes ++
    document.drop (if inserts then offset else offset + bytes.length)

/-! ## Bytes -/

theorem hexValue_hexDigit {half : Byte} (h : half < 16) :
    View.hexValue (hexDigit half) = some half := by
  have hall : ∀ n : Fin 16, View.hexValue (hexDigit (BitVec.ofNat 8 n)) =
      some (BitVec.ofNat 8 n) := by decide
  have hhalf := hall ⟨half.toNat, BitVec.lt_def.mp h⟩
  rwa [BitVec.ofNat_toNat, BitVec.setWidth_eq] at hhalf

theorem high_lt (b : Byte) : b >>> 4 < 16 := by
  rw [BitVec.lt_def, BitVec.toNat_ushiftRight, Nat.shiftRight_eq_div_pow]
  have hb := b.isLt
  show b.toNat / 16 < 16
  omega

theorem low_lt (b : Byte) : b &&& 0x0F < 16 := by
  rw [BitVec.lt_def, BitVec.toNat_and]
  exact Nat.and_lt_two_pow _ (show (15 : Nat) < 2 ^ 4 by decide)

/-- The two halves, whatever the second one was before. -/
theorem halves (b ch : Byte) :
    (((ch &&& 0x0F) ||| ((b >>> 4) <<< 4)) &&& 0xF0) ||| (b &&& 0x0F) = b := by
  ext i hi
  have h : i = 0 ∨ i = 1 ∨ i = 2 ∨ i = 3 ∨ i = 4 ∨ i = 5 ∨ i = 6 ∨ i = 7 := by omega
  rcases h with rfl | rfl | rfl | rfl | rfl | rfl | rfl | rfl <;> simp

theorem written_nil (inserts : Bool) (document : List Byte) (offset : Nat) :
    written inserts document offset [] = document := by
  unfold written
  cases inserts <;> simp

theorem written_cons (inserts : Bool) {document : List Byte} {offset : Nat} (b : Byte)
    (bytes : List Byte) (h : offset ≤ document.length) :
    written inserts (written inserts document offset [b]) (offset + 1) bytes =
      written inserts document offset (b :: bytes) := by
  have hfront : (document.take offset ++ [b]).length = offset + 1 := by
    rw [List.length_append, List.length_take, Nat.min_eq_left h]
    rfl
  unfold written
  rw [List.take_left' hfront, List.append_assoc _ [b] bytes]
  cases inserts with
  | true => simp only [if_true, List.drop_left' hfront, List.singleton_append]
  | false =>
    have hdrop : offset + 1 + bytes.length = offset + (b :: bytes).length := by
      rw [List.length_cons]
      omega
    simp only [Bool.false_eq_true, if_false]
    rw [← List.drop_drop, List.drop_left' hfront, List.length_singleton, List.drop_drop, hdrop,
      List.singleton_append]

theorem insert_written {document : List Byte} {offset : Nat} (data : List Byte)
    (h : offset ≤ document.length) :
    (Edit.insert offset data).result document = written true document offset data :=
  QMemoryBuffer.insert_of_le h data

theorem replace_written {document : List Byte} {offset : Nat} (data : List Byte)
    (h : offset ≤ document.length) :
    (Edit.replace offset data).result document = written false document offset data := by
  have htake : (document.take offset).length = offset := by
    rw [List.length_take, Nat.min_eq_left h]
  have hle : offset ≤ (QMemoryBuffer.remove document offset data.length).length := by
    unfold QMemoryBuffer.remove
    rw [List.length_append, htake]
    omega
  show QMemoryBuffer.insert (QMemoryBuffer.remove document offset data.length) offset data = _
  rw [QMemoryBuffer.insert_of_le hle]
  unfold QMemoryBuffer.remove written
  rw [List.take_left' htake, List.drop_left' htake]
  rfl

theorem length_written (inserts : Bool) {document : List Byte} {offset : Nat} (data : List Byte)
    (h : offset ≤ document.length) :
    document.length ≤ (written inserts document offset data).length ∧
      offset + data.length ≤ (written inserts document offset data).length ∧
      (written inserts document offset data).length ≤ document.length + data.length := by
  unfold written
  simp only [List.length_append, List.length_take, List.length_drop]
  split <;> omega

/-! ## Places -/

/-- Nothing is selected, and the cursor is at this byte of these. -/
structure View.At (v : View) (bytes : List Byte) (offset : Nat) (low : Prop) : Prop where
  onChars : v.OnChars
  unselected : v.cursor.position = v.cursor.selection
  bytes : v.document.bytes = bytes
  offset : v.cursor.position.offset = offset
  nibble : v.cursor.position.nibbleindex = 0 ↔ low

variable {v : View} {bytes : List Byte} {offset : Nat} {low : Prop}

theorem View.At.offset_le (h : v.At bytes offset low) : offset ≤ bytes.length := by
  have hle := h.onChars.offset
  rw [h.offset] at hle
  unfold Document.length at hle
  rw [h.bytes] at hle
  exact Int.ofNat_le.mp hle

theorem View.At.atEnd_iff (h : v.At bytes offset low) : v.atEnd ↔ offset = bytes.length := by
  have hle := h.offset_le
  unfold View.atEnd Document.length
  rw [h.offset, h.bytes, decide_eq_true_iff]
  omega

theorem View.At.removeSelection (h : v.At bytes offset low) : v.removeSelection = some v := by
  unfold View.removeSelection QHexCursor.hasSelection
  rw [if_neg]
  simp [h.unselected]

/-- An edit that makes the document no shorter. -/
theorem View.At.edit (h : v.At bytes offset low) {e : Edit} {bytes' : List Byte}
    (he : e.result bytes = bytes') (hle : bytes.length ≤ bytes'.length)
    (hlt : bytes'.length < 2 ^ 24) :
    ∃ v', v.edit e = some v' ∧ v'.At bytes' offset low ∧ v'.selectedArea = v.selectedArea := by
  have hbytes : e.result v.document.bytes = bytes' := by rw [h.bytes, he]
  have hsome : v.document.edit e = some ⟨bytes', hlt⟩ := by
    unfold Document.edit
    simp only [hbytes, hlt, dif_pos]
  refine ⟨{ v with document := ⟨bytes', hlt⟩ }, ?_, ⟨?_, h.unselected, rfl, h.offset, h.nibble⟩,
    rfl⟩
  · unfold View.edit
    rw [hsome, Option.map_some]
  · have hoffset := h.onChars.offset
    have hline := h.onChars.inside.line
    have hlength : v.document.length ≤ bytes'.length := by
      unfold Document.length
      rw [h.bytes]
      exact hle
    refine ⟨⟨?_, h.onChars.inside.column⟩, ?_, h.onChars.nibble⟩
    · rw [BitVec.le_def, Document.documentLastLine_toNat] at hline ⊢
      exact Nat.le_trans hline (Nat.div_le_div_right hlength)
    · exact Int.le_trans hoffset (Int.ofNat_le.mpr hlength)

theorem View.At.moveLow (h : v.At bytes offset False) (harea : v.selectedArea = .hex)
    (hlt : offset < bytes.length) : (v.moveNext false).At bytes offset True := by
  have hbefore : v.cursor.position.offset < v.document.length := by
    unfold Document.length
    rw [h.offset, h.bytes]
    exact Int.ofNat_lt.mpr hlt
  have hnibble : v.cursor.position.nibbleindex ≠ 0 := h.nibble.mp
  have hwalked := moveNext_walked h.onChars false
  rw [moveNext_low h.onChars hbefore harea hnibble] at hwalked ⊢
  refine ⟨hwalked.onChars, rfl, h.bytes, ?_, ?_⟩
  · rw [← h.offset]
    rfl
  · exact iff_of_true rfl trivial

theorem View.At.moveRight (h : v.At bytes offset low) (hfrom : v.selectedArea = .ascii ∨ low)
    (hlt : offset < bytes.length) : (v.moveNext false).At bytes (offset + 1) False := by
  have hbefore : v.cursor.position.offset < v.document.length := by
    unfold Document.length
    rw [h.offset, h.bytes]
    exact Int.ofNat_lt.mpr hlt
  have hwalked := moveNext_walked h.onChars false
  obtain ⟨line, column, hbyte, hmove⟩ :=
    moveNext_right h.onChars hbefore (hfrom.imp_right h.nibble.mpr) false
  rw [hmove] at hwalked ⊢
  refine ⟨hwalked.onChars, rfl, h.bytes, ?_, ?_⟩
  · rw [hwalked.onChars.inside.offset_eq]
    show line.toNat * hexLineWidth + column = _
    rw [hbyte.offset, h.offset]
    rfl
  · refine iff_of_false (fun hzero => ?_) not_false
    rw [go_position] at hzero
    exact Int.one_ne_zero hzero

theorem View.At.selectedArea (h : v.At bytes offset low) :
    (v.moveNext false).selectedArea = v.selectedArea :=
  (moveNext_walked h.onChars false).selectedArea

/-! ## One byte -/

/-- At the end both modes are one. -/
theorem written_end {document : List Byte} {offset : Nat} (h : offset = document.length) (b : Byte)
    (inserts : Bool) : written true document offset [b] = written inserts document offset [b] := by
  unfold written
  cases inserts with
  | true => rfl
  | false =>
    simp only [if_true, Bool.false_eq_true, if_false]
    rw [List.drop_of_length_le (by omega), List.drop_of_length_le (by omega)]

/-- What is written at the cursor. -/
theorem View.At.write (h : v.At bytes offset low) {e : Edit} {inserts : Bool} {data : List Byte}
    (he : e.result bytes = written inserts bytes offset data)
    (hlt : bytes.length + data.length < 2 ^ 24) :
    ∃ v', v.edit e = some v' ∧ v'.At (written inserts bytes offset data) offset low ∧
      v'.selectedArea = v.selectedArea := by
  obtain ⟨hle, _, hmax⟩ := length_written inserts data h.offset_le
  exact h.edit he hle (by omega)

theorem type_ascii (h : v.At bytes offset low) (harea : v.selectedArea = .ascii) (inserts : Bool)
    {b : Byte} (hb : 0x20 ≤ b ∧ b ≤ 0x7E) (hlt : bytes.length + 1 < 2 ^ 24) :
    ∃ v', v.processTextInput inserts b = some v' ∧
      v'.At (written inserts bytes offset [b]) (offset + 1) False ∧
      v'.selectedArea = .ascii := by
  have htoNat : v.cursor.position.offset.toNat = offset := by rw [h.offset, Int.toNat_natCast]
  have hinside := (length_written inserts [b] h.offset_le).2.1
  obtain ⟨v', htype, hat, hsame⟩ : ∃ v' : View, v.typeAscii inserts b = some (v'.moveNext false) ∧
      v'.At (written inserts bytes offset [b]) offset low ∧
      v'.selectedArea = v.selectedArea := by
    unfold View.typeAscii
    simp only [htoNat]
    by_cases hover : ¬ v.atEnd ∧ ¬ inserts
    · have hmode : inserts = false := by simpa using hover.2
      obtain ⟨v', hedit, hat, hsame⟩ := h.write (replace_written [b] h.offset_le) hlt
      rw [if_pos hover, hedit, Option.map_some, hmode]
      exact ⟨v', rfl, hat, hsame⟩
    · have hboth : written true bytes offset [b] = written inserts bytes offset [b] := by
        cases inserts with
        | true => rfl
        | false =>
          refine written_end ?_ b false
          rw [← h.atEnd_iff]
          simpa using hover
      obtain ⟨v', hedit, hat, hsame⟩ := h.write (insert_written [b] h.offset_le) hlt
      rw [if_neg hover, hedit, Option.map_some, ← hboth]
      exact ⟨v', rfl, hat, hsame⟩
  refine ⟨v'.moveNext false, ?_, hat.moveRight (.inl (hsame.trans harea)) hinside, ?_⟩
  · unfold View.processTextInput
    rw [harea]
    simp only [if_pos hb, h.removeSelection, Option.bind_some, htype]
  · rw [hat.selectedArea, hsame, harea]

/-- The first key of a byte leaves one whose first half is right. -/
theorem type_high (h : v.At bytes offset False) (harea : v.selectedArea = .hex) (inserts : Bool)
    (b : Byte) (hlt : bytes.length + 1 < 2 ^ 24) :
    ∃ v' ch, v.typeHex inserts (b >>> 4) = some v' ∧
      v'.At (written inserts bytes offset [ch]) offset True ∧ v'.selectedArea = .hex ∧
      (ch &&& 0xF0) ||| (b &&& 0x0F) = b := by
  have htoNat : v.cursor.position.offset.toNat = offset := by rw [h.offset, Int.toNat_natCast]
  have hnibble : v.cursor.position.nibbleindex ≠ 0 := h.nibble.mp
  obtain ⟨v', ch, htype, hat, hsame, hch⟩ : ∃ (v' : View) (ch : Byte),
      v.typeHex inserts (b >>> 4) = some (v'.moveNext false) ∧
      v'.At (written inserts bytes offset [ch]) offset False ∧
      v'.selectedArea = v.selectedArea ∧ (ch &&& 0xF0) ||| (b &&& 0x0F) = b := by
    unfold View.typeHex
    simp only [htoNat, if_pos hnibble]
    by_cases hnew : v.atEnd ∨ v.cursor.position.nibbleindex ≠ 0 ∧ inserts
    · have hboth : written true bytes offset [(b >>> 4) <<< 4] =
          written inserts bytes offset [(b >>> 4) <<< 4] := by
        rcases hnew with hend | ⟨_, hmode⟩
        · exact written_end (h.atEnd_iff.mp hend) _ inserts
        · rw [hmode]
      obtain ⟨v', hedit, hat, hsame⟩ := h.write (insert_written [(b >>> 4) <<< 4] h.offset_le) hlt
      have hch := halves b 0#8
      rw [BitVec.zero_and, BitVec.zero_or] at hch
      rw [hboth] at hat
      rw [if_pos hnew, hedit, Option.map_some]
      exact ⟨v', _, rfl, hat, hsame, hch⟩
    · have hmode : inserts = false := by simpa [hnibble] using fun h => hnew (.inr h)
      obtain ⟨v', hedit, hat, hsame⟩ := h.write
        (replace_written [(v.document.bytes.getD offset 0 &&& 0x0F) ||| ((b >>> 4) <<< 4)]
          h.offset_le) hlt
      rw [if_neg hnew, hedit, Option.map_some, hmode]
      exact ⟨v', _, rfl, hat, hsame, halves b _⟩
  have hinside := (length_written inserts [ch] h.offset_le).2.1
  exact ⟨v'.moveNext false, ch, htype, hat.moveLow (hsame.trans harea) hinside,
    by rw [hat.selectedArea, hsame, harea], hch⟩

/-- The second key replaces the second half. -/
theorem type_low (h : v.At bytes offset True) (harea : v.selectedArea = .hex) (inserts : Bool)
    (b : Byte) (hinside : offset < bytes.length) (hlt : bytes.length + 1 < 2 ^ 24) :
    ∃ v', v.typeHex inserts (b &&& 0x0F) = some v' ∧
      v'.At (written false bytes offset [(bytes.getD offset 0 &&& 0xF0) ||| (b &&& 0x0F)])
        (offset + 1) False ∧ v'.selectedArea = .hex := by
  have htoNat : v.cursor.position.offset.toNat = offset := by rw [h.offset, Int.toNat_natCast]
  have hnibble : v.cursor.position.nibbleindex = 0 := h.nibble.mpr trivial
  have hnot : ¬ (v.atEnd ∨ v.cursor.position.nibbleindex ≠ 0 ∧ inserts) := by
    rw [h.atEnd_iff]
    omega
  obtain ⟨v', hedit, hat, hsame⟩ := h.write
    (replace_written [(bytes.getD offset 0 &&& 0xF0) ||| (b &&& 0x0F)] h.offset_le) hlt
  refine ⟨v'.moveNext false, ?_, hat.moveRight (.inr trivial) ?_, ?_⟩
  · unfold View.typeHex
    simp only [htoNat]
    rw [if_neg hnot, if_neg fun hne => hne hnibble, h.bytes, hedit, Option.map_some]
  · exact (length_written false [_] h.offset_le).2.1
  · rw [hat.selectedArea, hsame, harea]

theorem type_hex (h : v.At bytes offset False) (harea : v.selectedArea = .hex) (inserts : Bool)
    (b : Byte) (hlt : bytes.length + 2 < 2 ^ 24) :
    ∃ v', ((v.processTextInput inserts (hexDigit (b >>> 4))).bind fun v =>
        v.processTextInput inserts (hexDigit (b &&& 0x0F))) = some v' ∧
      v'.At (written inserts bytes offset [b]) (offset + 1) False ∧ v'.selectedArea = .hex := by
  obtain ⟨v1, ch, hhigh, hat, harea1, hch⟩ := type_high h harea inserts b (by omega)
  obtain ⟨_, hinside, hmax⟩ := length_written inserts [ch] h.offset_le
  rw [List.length_singleton] at hinside hmax
  obtain ⟨v', hlow, hat', harea'⟩ := type_low hat harea1 inserts b hinside (by omega)
  have hfront : (bytes.take offset).length = offset := by
    rw [List.length_take, Nat.min_eq_left h.offset_le]
  have hget : (written inserts bytes offset [ch]).getD offset 0 = ch := by
    unfold written
    rw [List.append_assoc, List.getD_eq_getElem?_getD, List.getElem?_append_right (by omega),
      hfront, Nat.sub_self]
    rfl
  have hover : written false (written inserts bytes offset [ch]) offset [b] =
      written inserts bytes offset [b] := by
    unfold written
    rw [List.append_assoc _ [ch], List.take_left' hfront]
    simp only [Bool.false_eq_true, if_false, List.length_singleton]
    rw [← List.append_assoc _ [ch],
      List.drop_left' (by rw [List.length_append, hfront, List.length_singleton])]
  rw [hget, hch, hover] at hat'
  refine ⟨v', ?_, hat', harea'⟩
  have hone : v.processTextInput inserts (hexDigit (b >>> 4)) = some v1 := by
    unfold View.processTextInput
    rw [harea]
    simp only [hexValue_hexDigit (high_lt b), h.removeSelection, Option.bind_some, hhigh]
  rw [hone, Option.bind_some]
  unfold View.processTextInput
  rw [harea1]
  simp only [hexValue_hexDigit (low_lt b), hat.removeSelection, Option.bind_some, hlow]

/-! ## Any bytes -/

def typeStep (inserts : Bool) (v : View) (key : Byte) : Option View :=
  v.processTextInput inserts key

theorem type_byte (h : v.At bytes offset low) (hfirst : v.selectedArea = .hex → ¬ low)
    (inserts : Bool) {b : Byte} (hb : v.selectedArea = .ascii → 0x20 ≤ b ∧ b ≤ 0x7E)
    (hlt : bytes.length + 2 < 2 ^ 24) :
    ∃ v', run (typeStep inserts) v (keysOf v.selectedArea b) = some v' ∧
      v'.At (written inserts bytes offset [b]) (offset + 1) False ∧
      v'.selectedArea = v.selectedArea := by
  cases harea : v.selectedArea with
  | ascii =>
    obtain ⟨v', htype, hat, hsame⟩ := type_ascii h harea inserts (hb harea) (by omega)
    refine ⟨v', ?_, hat, hsame⟩
    have hstep : typeStep inserts v b = some v' := htype
    show run (typeStep inserts) v [b] = some v'
    rw [run_cons hstep]
    rfl
  | hex =>
    have hhigh : v.At bytes offset False :=
      { h with nibble := h.nibble.trans (iff_false_intro (hfirst harea)) }
    obtain ⟨v', htype, hat, hsame⟩ := type_hex hhigh harea inserts b hlt
    refine ⟨v', ?_, hat, hsame⟩
    obtain ⟨v1, hone, htwo⟩ := Option.bind_eq_some_iff.mp htype
    have hstep : typeStep inserts v (hexDigit (b >>> 4)) = some v1 := hone
    have hstep' : typeStep inserts v1 (hexDigit (b &&& 0x0F)) = some v' := htwo
    show run (typeStep inserts) v [hexDigit (b >>> 4), hexDigit (b &&& 0x0F)] = some v'
    rw [run_cons hstep, run_cons hstep']
    rfl

/-- One byte, and then others. -/
theorem type_cons {inserts : Bool} {b : Byte} {typed : List Byte} {v1 v' : View}
    (hle : offset ≤ bytes.length)
    (hone : run (typeStep inserts) v (keysOf v.selectedArea b) = some v1)
    (hsame : v1.selectedArea = v.selectedArea)
    (hrest : run (typeStep inserts) v1 (typed.flatMap (keysOf v1.selectedArea)) = some v')
    (hat : v'.At (written inserts (written inserts bytes offset [b]) (offset + 1) typed)
      (offset + 1 + typed.length) low) :
    run (typeStep inserts) v ((b :: typed).flatMap (keysOf v.selectedArea)) = some v' ∧
      v'.At (written inserts bytes offset (b :: typed)) (offset + (b :: typed).length) low := by
  constructor
  · rw [List.flatMap_cons, run_append hone, ← hsame]
    exact hrest
  · rw [written_cons inserts b typed hle] at hat
    rw [List.length_cons, Nat.add_comm typed.length, ← Nat.add_assoc]
    exact hat

/-- From the first half of a byte, or the place behind the last one. -/
theorem type_bytes (inserts : Bool) (typed : List Byte) (h : v.At bytes offset False)
    (hascii : v.selectedArea = .ascii → ∀ b ∈ typed, 0x20 ≤ b ∧ b ≤ 0x7E)
    (hlt : bytes.length + typed.length + 1 < 2 ^ 24) :
    ∃ v', run (typeStep inserts) v (typed.flatMap (keysOf v.selectedArea)) = some v' ∧
      v'.At (written inserts bytes offset typed) (offset + typed.length) False ∧
      v'.selectedArea = v.selectedArea := by
  induction typed generalizing v bytes offset with
  | nil =>
    refine ⟨v, rfl, ?_, rfl⟩
    rw [written_nil]
    exact h
  | cons b typed ih =>
    obtain ⟨_, _, hmax⟩ := length_written inserts [b] h.offset_le
    rw [List.length_singleton] at hmax
    rw [List.length_cons] at hlt
    obtain ⟨v1, hone, hat1, hsame1⟩ := type_byte h (fun _ => not_false) inserts
      (fun harea => hascii harea b List.mem_cons_self) (by omega)
    obtain ⟨v', hrest, hat, hsame⟩ :=
      ih hat1 (fun harea c hc => hascii (hsame1 ▸ harea) c (List.mem_cons_of_mem b hc)) (by omega)
    obtain ⟨hrun, hat'⟩ := type_cons h.offset_le hone hsame1 hrest hat
    exact ⟨v', hrun, hat', hsame.trans hsame1⟩

end HexView
end Xsky
