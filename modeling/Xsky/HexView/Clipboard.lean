import Xsky.HexView.Typing

/-!
# HexView.Clipboard

`QHexDocument::copy` and `QHexDocument::paste` as text of hexadecimal digits, which is how the
hexadecimal area of a view calls them.

`paste_copied`: the bytes selected in one view are written at the cursor of another one.
-/

namespace Xsky
namespace HexView

open Kit

/-- `QByteArray::toUpper` -/
def toUpper (c : Byte) : Byte := if 0x61 ≤ c ∧ c ≤ 0x7A then c - 0x20 else c

/-- `QByteArray::toHex` of each byte, and a blank behind it. -/
def hexText (bytes : List Byte) : List Byte :=
  (bytes.flatMap fun b : Byte => [hexDigit (b >>> 4), hexDigit (b &&& 0x0F), 0x20]).map toUpper

/-- A digit in either case. -/
def digitValue (c : Byte) : Option Byte :=
  if 0x30 ≤ c ∧ c ≤ 0x39 then some (c - 0x30)
  else if 0x41 ≤ c ∧ c ≤ 0x46 then some (c - 0x37)
  else if 0x61 ≤ c ∧ c ≤ 0x66 then some (c - 0x57)
  else none

def digitPairs : List Byte → List Byte
  | high :: low :: digits => ((high <<< 4) ||| low) :: digitPairs digits
  | digits => digits

/-- `QByteArray::fromHex`: what is no digit is skipped, and the digits are paired from the last one
on. -/
def fromHex (text : List Byte) : List Byte :=
  let digits := text.filterMap digitValue
  digitPairs (if digits.length % 2 = 0 then digits else 0 :: digits)

namespace View

def selectedBytes (v : View) : List Byte :=
  if v.cursor.hasSelection then
    QMemoryBuffer.read v.document.bytes v.cursor.selectionStart.offset.toNat
      v.cursor.selectionLength.toNat
  else []

/-- The clipboard after `copy( true )`. -/
def copyHex (v : View) (clipboard : List Byte) : List Byte :=
  if v.cursor.hasSelection then hexText v.selectedBytes else clipboard

/-- `paste( true )` -/
def pasteHex (v : View) (inserts : Bool) (clipboard : List Byte) : Option View :=
  if clipboard = [] then some v
  else
    v.removeSelection.bind fun v =>
      let data := fromHex clipboard
      let offset := v.cursor.position.offset.toNat
      if inserts then v.edit (.insert offset data) else v.edit (.replace offset data)

/-- From one end of the selection to the other, both included. -/
def between (v : View) : List Byte :=
  let a := v.cursor.position.offset.toNat
  let b := v.cursor.selection.offset.toNat
  (v.document.bytes.drop (min a b)).take (max a b + 1 - min a b)

end View

/-! ## The text -/

theorem digitValue_hexDigit {half : Byte} (h : half < 16) :
    digitValue (toUpper (hexDigit half)) = some half := by
  have hall : ∀ n : Fin 16, digitValue (toUpper (hexDigit (BitVec.ofNat 8 n))) =
      some (BitVec.ofNat 8 n) := by decide
  have hhalf := hall ⟨half.toNat, BitVec.lt_def.mp h⟩
  rwa [BitVec.ofNat_toNat, BitVec.setWidth_eq] at hhalf

theorem halves_join (b : Byte) : ((b >>> 4) <<< 4) ||| (b &&& 0x0F) = b := by
  ext i hi
  have h : i = 0 ∨ i = 1 ∨ i = 2 ∨ i = 3 ∨ i = 4 ∨ i = 5 ∨ i = 6 ∨ i = 7 := by omega
  rcases h with rfl | rfl | rfl | rfl | rfl | rfl | rfl | rfl <;> simp

theorem digits_hexText (bytes : List Byte) :
    (hexText bytes).filterMap digitValue =
      bytes.flatMap fun b : Byte => [b >>> 4, b &&& 0x0F] := by
  have hblank : digitValue (toUpper 0x20) = none := by decide
  unfold hexText
  induction bytes with
  | nil => rfl
  | cons b bytes ih =>
    rw [List.flatMap_cons, List.map_append, List.filterMap_append, ih, List.flatMap_cons]
    simp only [List.map_cons, List.map_nil, List.filterMap_cons, List.filterMap_nil, hblank,
      digitValue_hexDigit (high_lt b), digitValue_hexDigit (low_lt b)]

theorem fromHex_hexText (bytes : List Byte) : fromHex (hexText bytes) = bytes := by
  have heven : (bytes.flatMap fun b : Byte => [b >>> 4, b &&& 0x0F]).length % 2 = 0 := by
    induction bytes with
    | nil => rfl
    | cons b bytes ih =>
      rw [List.flatMap_cons, List.length_append]
      show (2 + _) % 2 = 0
      omega
  unfold fromHex
  simp only [digits_hexText, if_pos heven]
  clear heven
  induction bytes with
  | nil => rfl
  | cons b bytes ih =>
    show (((b >>> 4) <<< 4) ||| (b &&& 0x0F)) ::
      digitPairs (bytes.flatMap fun b : Byte => [b >>> 4, b &&& 0x0F]) = _
    rw [halves_join, ih]

/-! ## The selection -/

variable {v w : View} {bytes : List Byte} {offset : Nat} {low : Prop}

theorem In_offset_nonneg {p : QHexPosition} {d : Document} (h : p.In d) : 0 ≤ p.offset := by
  have hcolumn := h.column
  rw [h.offset_eq]
  unfold hexLineWidth
  omega

/-- The order of lines and columns is the one of offsets. -/
theorem offset_lt_iff {p q : QHexPosition} {d : Document} (hp : p.In d) (hq : q.In d) :
    p.offset < q.offset ↔ p.line < q.line ∨ p.line = q.line ∧ p.column < q.column := by
  have hpcolumn := hp.column
  have hqcolumn := hq.column
  rw [hp.offset_eq, hq.offset_eq, BitVec.lt_def, ← BitVec.toNat_inj]
  unfold hexLineWidth at *
  omega

theorem selectionStart_in (h : v.Inside) : v.cursor.selectionStart.In v.document := by
  unfold QHexCursor.selectionStart
  split
  · exact h.position
  · split
    · exact h.position
    · exact h.selection

theorem selectionEnd_in (h : v.Inside) : v.cursor.selectionEnd.In v.document := by
  unfold QHexCursor.selectionEnd
  split
  · exact h.position
  · split
    · exact h.position
    · exact h.selection

theorem selectionStart_offset (h : v.Inside) :
    v.cursor.selectionStart.offset = min v.cursor.position.offset v.cursor.selection.offset := by
  have hlt := offset_lt_iff h.position h.selection
  unfold QHexCursor.selectionStart
  split
  · rename_i hline
    have hless := hlt.mpr (.inl hline)
    omega
  · rename_i hline
    split
    · rename_i hcolumn
      have hless := hlt.mpr (.inr hcolumn)
      omega
    · rename_i hcolumn
      have hnot : ¬ v.cursor.position.offset < v.cursor.selection.offset := by
        rw [hlt]
        exact fun hor => hor.elim hline hcolumn
      omega

theorem selectionEnd_offset (h : v.Inside) :
    v.cursor.selectionEnd.offset = max v.cursor.position.offset v.cursor.selection.offset := by
  have hlt := offset_lt_iff h.selection h.position
  unfold QHexCursor.selectionEnd
  split
  · rename_i hline
    have hless := hlt.mpr (.inl hline)
    omega
  · rename_i hline
    split
    · rename_i hcolumn
      have hless := hlt.mpr (.inr ⟨hcolumn.1.symm, hcolumn.2⟩)
      omega
    · rename_i hcolumn
      have hnot : ¬ v.cursor.selection.offset < v.cursor.position.offset := by
        rw [hlt]
        exact fun hor => hor.elim hline fun heq => hcolumn ⟨heq.1.symm, heq.2⟩
      omega

theorem selectionStart_le (h : v.Inside) :
    v.cursor.selectionStart.offset ≤ v.cursor.selectionEnd.offset := by
  rw [selectionStart_offset h, selectionEnd_offset h]
  omega

theorem selectedBytes_between (h : v.Inside) (hselection : v.cursor.hasSelection) :
    v.selectedBytes = v.between := by
  have hposition := In_offset_nonneg h.position
  have hother := In_offset_nonneg h.selection
  unfold View.selectedBytes QHexCursor.selectionLength QMemoryBuffer.read View.between
  rw [if_pos hselection, selectionStart_offset h, selectionEnd_offset h]
  generalize v.cursor.position.offset = a at *
  generalize v.cursor.selection.offset = b at *
  have hstart : (min a b).toNat = min a.toNat b.toNat := by omega
  have hlength : (max a b - min a b + 1).toNat = max a.toNat b.toNat + 1 - min a.toNat b.toNat := by
    omega
  rw [hstart, hlength]

theorem hexText_eq_nil {data : List Byte} (h : hexText data = []) : data = [] := by
  have hback := fromHex_hexText data
  rw [h] at hback
  exact hback.symm

/-- Copied from one view, as far as its document goes, and pasted into another one with nothing
selected. -/
theorem paste_copied (inserts : Bool) (v w : View) (bytes : List Byte) (offset : Nat) (low : Prop)
    (clipboard : List Byte) (hv : v.Inside) (hselection : v.cursor.hasSelection)
    (hw : w.At bytes offset low) (hlt : bytes.length + v.document.length < 2 ^ 24) :
    ∃ w', w.pasteHex inserts (v.copyHex clipboard) = some w' ∧
      w'.At (written inserts bytes offset v.between) offset low := by
  have htoNat : w.cursor.position.offset.toNat = offset := by
    rw [hw.offset, Int.toNat_natCast]
  have hshort : v.between.length ≤ v.document.length := by
    unfold View.between Document.length
    rw [List.length_take, List.length_drop]
    omega
  unfold View.copyHex View.pasteHex
  rw [if_pos hselection, selectedBytes_between hv hselection]
  by_cases hempty : hexText v.between = []
  · rw [if_pos hempty, hexText_eq_nil hempty]
    refine ⟨w, rfl, ?_⟩
    rw [written_nil]
    exact hw
  · rw [if_neg hempty, hw.removeSelection, Option.bind_some]
    simp only [fromHex_hexText, htoNat]
    cases inserts with
    | true =>
      obtain ⟨w', hedit, hat, _⟩ :=
        hw.write (insert_written v.between hw.offset_le) (by omega)
      exact ⟨w', hedit, hat⟩
    | false =>
      obtain ⟨w', hedit, hat, _⟩ :=
        hw.write (replace_written v.between hw.offset_le) (by omega)
      exact ⟨w', hedit, hat⟩

/-- The second of two bytes, into a document of none. -/
theorem paste_copied_one :
    let v : View := ⟨⟨[0x0A, 0x0B], by decide⟩, ⟨⟨0, 1, 1⟩, ⟨0, 1, 0⟩⟩, .hex, true⟩
    ∃ w', View.new.pasteHex false (v.copyHex []) = some w' ∧
      w'.At (written false [] 0 v.between) 0 False :=
  paste_copied false ⟨⟨[0x0A, 0x0B], by decide⟩, ⟨⟨0, 1, 1⟩, ⟨0, 1, 0⟩⟩, .hex, true⟩ View.new []
    0 False [] ⟨⟨by decide, by decide⟩, ⟨by decide, by decide⟩⟩ (by decide)
    ⟨new_onChars .empty .hex false, rfl, rfl, rfl, by decide⟩ (by decide)

end HexView
end Xsky
