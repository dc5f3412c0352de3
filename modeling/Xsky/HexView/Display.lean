import Xsky.HexView.Renderer

/-!
# HexView.Display

`QHexRenderer::applyCursorHex` and `QHexRenderer::applyCursorAscii`: the character the cursor is
drawn over, in the area that is typed in.

`typed_is_seen`: in the overwrite mode a key shows in place of this character, and nothing else of
the area changes.
-/

namespace Xsky
namespace HexView

open Kit

namespace QTextCursor

def clearSelection (c : QTextCursor) : QTextCursor := ⟨c.position, c.position⟩

/-- `Right`, with the anchor moved. -/
def moveRight (c : QTextCursor) (length : Nat) : QTextCursor :=
  ⟨min (c.position + 1) length, min (c.position + 1) length⟩

end QTextCursor

namespace QHexCursor

variable (refused : Refusal)

def applyCursorAscii (c : QHexCursor) (textcursor : QTextCursor) (length : Nat)
    (line : BitVec 64) : Option QTextCursor :=
  if line ≠ c.position.line then none
  else
    some ((textcursor.clearSelection.setPosition refused length c.position.column).right length 1)

def applyCursorHex (c : QHexCursor) (textcursor : QTextCursor) (selectedArea : Area)
    (length : Nat) (line : BitVec 64) : Option QTextCursor :=
  if line ≠ c.position.line then none
  else
    let textcursor := textcursor.clearSelection.setPosition refused length (c.position.column * 3)
    let textcursor :=
      if selectedArea = .hex ∧ c.position.nibbleindex = 0 then textcursor.moveRight length
      else textcursor
    let textcursor := textcursor.right length 1
    some (if selectedArea = .ascii then textcursor.right length 1 else textcursor)

end QHexCursor

namespace View

/-- What the cursor is drawn over on a line of an area, while it is enabled. -/
def cursorOn (refused : Refusal) (v : View) (area : Area) (line : BitVec 64) : Option QTextCursor :=
  let length := (v.document.drawn area line).length
  let textcursor := (v.highlight refused area line).getD (v.styled refused area line)
  match area with
  | .hex => v.cursor.applyCursorHex refused textcursor v.selectedArea length line
  | .ascii => v.cursor.applyCursorAscii refused textcursor length line

/-- A key the area takes. -/
def Takes (v : View) (key : Byte) : Prop :=
  match v.selectedArea with
  | .hex => (hexValue key).isSome
  | .ascii => 0x20 ≤ key ∧ key ≤ 0x7E

end View

/-! ## Texts and cells -/

variable {d : Document} {v : View} {bytes : List Byte} {offset : Nat} {low : Prop} {area : Area}

/-- One character of one byte. -/
theorem cells_set (l : List Byte) (i k : Nat) (b x : Byte) (hk : k < factor area)
    (h : ∀ old, l[i]? = some old → cell area b = (cell area old).set k x) :
    (l.set i b).flatMap (cell area) = (l.flatMap (cell area)).set (i * factor area + k) x := by
  induction l generalizing i with
  | nil => rfl
  | cons old l ih =>
    rw [List.flatMap_cons]
    cases i with
    | zero =>
      rw [List.set_cons_zero, List.flatMap_cons, h old rfl, Nat.zero_mul, Nat.zero_add,
        List.set_append_left _ _ (by rwa [length_cell])]
    | succ i =>
      have hrest := ih i fun old hold => h old (by rwa [List.getElem?_cons_succ])
      rw [List.set_cons_succ, List.flatMap_cons, hrest, List.set_append_right, length_cell]
      · congr 2
        rw [Nat.succ_mul]
        omega
      · rw [length_cell, Nat.succ_mul]
        omega

theorem documentLastLine_set {d' : Document} {i : Nat} {b : Byte}
    (hbytes : d'.bytes = d.bytes.set i b) : d'.documentLastLine = d.documentLastLine := by
  apply BitVec.eq_of_toNat_eq
  rw [Document.documentLastLine_toNat, Document.documentLastLine_toNat]
  unfold Document.length
  rw [hbytes, List.length_set]

/-- The byte at the cursor is on one line. -/
theorem getLine_set {d' : Document} {p : QHexPosition} {line : BitVec 64} {b : Byte}
    (hp : p.In d) (hbytes : d'.bytes = d.bytes.set p.offset.toNat b)
    (hline : line ≤ d.documentLastLine) :
    d'.getLine line =
      if line = p.line then (d.getLine line).set p.column.toNat b else d.getLine line := by
  have hcolumn := hp.column
  have hoffset : p.offset.toNat = hexLineWidth * p.line.toNat + p.column.toNat := by
    rw [hp.offset_eq]
    unfold hexLineWidth
    omega
  have hlast := documentLastLine_set hbytes
  rw [getLine_bytes hline, getLine_bytes (by rwa [hlast]), hbytes, List.drop_set]
  by_cases hhere : line = p.line
  · rw [if_pos hhere, if_neg (by rw [hhere]; omega), List.take_set, hhere]
    congr 1
    omega
  · rw [if_neg hhere]
    have hne := mt BitVec.eq_of_toNat_eq hhere
    split
    · rfl
    · rename_i hbehind
      rw [List.take_set, List.set_eq_of_length_le]
      rw [List.length_take]
      unfold hexLineWidth at *
      omega

/-! ## A byte typed over -/

theorem and_low {half : Byte} (h : half < 16) : half &&& 0x0F = half := by
  apply BitVec.eq_of_toNat_eq
  rw [BitVec.toNat_and]
  exact (Nat.and_two_pow_sub_one_eq_mod half.toNat 4).trans (Nat.mod_eq_of_lt (BitVec.lt_def.mp h))

/-- Its first digit. -/
theorem cell_high (ch : Byte) {half : Byte} (h : half < 16) :
    cell .hex ((ch &&& 0x0F) ||| (half <<< 4)) = (cell .hex ch).set 0 (hexDigit half) := by
  have hhigh : ((ch &&& 0x0F) ||| ((half &&& 0x0F) <<< 4)) >>> 4 = half &&& 0x0F := by
    ext i hi
    have hbit : i = 0 ∨ i = 1 ∨ i = 2 ∨ i = 3 ∨ i = 4 ∨ i = 5 ∨ i = 6 ∨ i = 7 := by omega
    rcases hbit with rfl | rfl | rfl | rfl | rfl | rfl | rfl | rfl <;> simp
  have hlow : ((ch &&& 0x0F) ||| ((half &&& 0x0F) <<< 4)) &&& 0x0F = ch &&& 0x0F := by
    ext i hi
    have hbit : i = 0 ∨ i = 1 ∨ i = 2 ∨ i = 3 ∨ i = 4 ∨ i = 5 ∨ i = 6 ∨ i = 7 := by omega
    rcases hbit with rfl | rfl | rfl | rfl | rfl | rfl | rfl | rfl <;> simp
  rw [and_low h] at hhigh hlow
  unfold cell
  rw [hhigh, hlow]
  rfl

/-- Its second digit. -/
theorem cell_low (ch : Byte) {half : Byte} (h : half < 16) :
    cell .hex ((ch &&& 0xF0) ||| half) = (cell .hex ch).set 1 (hexDigit half) := by
  have hhigh : ((ch &&& 0xF0) ||| (half &&& 0x0F)) >>> 4 = ch >>> 4 := by
    ext i hi
    have hbit : i = 0 ∨ i = 1 ∨ i = 2 ∨ i = 3 ∨ i = 4 ∨ i = 5 ∨ i = 6 ∨ i = 7 := by omega
    rcases hbit with rfl | rfl | rfl | rfl | rfl | rfl | rfl | rfl <;> simp
  have hlow : ((ch &&& 0xF0) ||| (half &&& 0x0F)) &&& 0x0F = half &&& 0x0F := by
    ext i hi
    have hbit : i = 0 ∨ i = 1 ∨ i = 2 ∨ i = 3 ∨ i = 4 ∨ i = 5 ∨ i = 6 ∨ i = 7 := by omega
    rcases hbit with rfl | rfl | rfl | rfl | rfl | rfl | rfl | rfl <;> simp
  rw [and_low h] at hhigh hlow
  unfold cell
  rw [hhigh, hlow]
  rfl

theorem hexDigit_hexValue {key half : Byte} (h : View.hexValue key = some half) :
    half < 16 ∧ hexDigit half = key := by
  unfold View.hexValue at h
  unfold hexDigit
  by_cases hdigit : 0x30 ≤ key ∧ key ≤ 0x39
  · rw [if_pos hdigit] at h
    cases h
    have hlt : key - 0x30 < 10 := by bv_omega
    rw [if_pos hlt]
    exact ⟨by bv_omega, by bv_omega⟩
  · rw [if_neg hdigit] at h
    by_cases hletter : 0x61 ≤ key ∧ key ≤ 0x66
    · rw [if_pos hletter] at h
      cases h
      have hge : ¬ key - 0x57 < 10 := by bv_omega
      rw [if_neg hge]
      exact ⟨by bv_omega, by bv_omega⟩
    · rw [if_neg hletter] at h
      cases h

/-- The key is the character the cursor is on. -/
theorem processTextInput_over (h : v.At bytes offset low) (hlt : offset < bytes.length)
    {key : Byte} (hkey : v.Takes key) :
    ∃ v' b, v.processTextInput false key = some v' ∧
      v'.document.bytes = v.document.bytes.set offset b ∧
      ∀ old, v.document.bytes[offset]? = some old →
        cell v.selectedArea b = (cell v.selectedArea old).set
          (if v.selectedArea = .hex ∧ v.cursor.position.nibbleindex = 0 then 1 else 0) key := by
  have htoNat : v.cursor.position.offset.toNat = offset := by rw [h.offset, Int.toNat_natCast]
  have hin : ¬ v.atEnd := by
    rw [h.atEnd_iff]
    omega
  have hmax := v.document.exact
  rw [h.bytes] at hmax
  have hwritten (b : Byte) : written false bytes offset [b] = bytes.set offset b := by
    unfold written
    rw [List.set_eq_take_append_cons_drop, if_pos hlt, List.append_assoc]
    rfl
  have hedit (b : Byte) : ∃ v', v.edit (.replace offset [b]) = some v' ∧
      v'.At (bytes.set offset b) offset low ∧ v'.selectedArea = v.selectedArea := by
    refine h.edit ?_ (Nat.le_of_eq (List.length_set).symm) (by rwa [List.length_set])
    rw [replace_written [b] h.offset_le, hwritten]
  unfold View.Takes at hkey
  unfold View.processTextInput
  cases harea : v.selectedArea with
  | hex =>
    rw [harea] at hkey
    obtain ⟨half, hhalf⟩ := Option.isSome_iff_exists.mp hkey
    obtain ⟨hlt16, hdigit⟩ := hexDigit_hexValue hhalf
    have hover : ¬ (v.atEnd ∨ v.cursor.position.nibbleindex ≠ 0 ∧ false = true) := by
      simp [hin]
    have hold : ∀ old, v.document.bytes[offset]? = some old →
        v.document.bytes.getD offset 0 = old := by
      intro old hold
      rw [List.getD_eq_getElem?_getD, hold, Option.getD_some]
    obtain ⟨b, hb⟩ : ∃ b : Byte, (if v.cursor.position.nibbleindex ≠ 0 then
        (v.document.bytes.getD offset 0 &&& 0x0F) ||| (half <<< 4)
      else (v.document.bytes.getD offset 0 &&& 0xF0) ||| half) = b := ⟨_, rfl⟩
    obtain ⟨v', hsome, hat, _⟩ := hedit b
    refine ⟨v'.moveNext false, b, ?_, ?_, fun old hbyte => ?_⟩
    · simp only [hhalf, h.removeSelection, Option.bind_some]
      unfold View.typeHex
      simp only [htoNat, hb]
      rw [if_neg hover, hsome, Option.map_some]
    · rw [(moveNext_walked hat.onChars false).document, hat.bytes, h.bytes]
    · rw [← hb, hold old hbyte, ← hdigit]
      by_cases hnibble : v.cursor.position.nibbleindex = 0
      · rw [if_neg (not_not_intro hnibble), if_pos ⟨rfl, hnibble⟩]
        exact cell_low old hlt16
      · rw [if_pos hnibble, if_neg fun hboth => hnibble hboth.2]
        exact cell_high old hlt16
  | ascii =>
    rw [harea] at hkey
    obtain ⟨v', hsome, hat, _⟩ := hedit key
    refine ⟨v'.moveNext false, key, ?_, ?_, fun old _ => ?_⟩
    · simp only [if_pos hkey, h.removeSelection, Option.bind_some]
      unfold View.typeAscii
      simp only [htoNat]
      rw [if_pos ⟨hin, Bool.false_ne_true⟩, hsome, Option.map_some]
    · rw [(moveNext_walked hat.onChars false).document, hat.bytes, h.bytes]
    · simp only [cell, if_pos hkey, reduceCtorEq, false_and, if_false, List.set_cons_zero]

/-- There is a byte in its column. -/
theorem View.At.column_lt (h : v.At bytes offset low) (hlt : offset < bytes.length) :
    v.cursor.position.column.toNat < (v.document.getLine v.cursor.position.line).length := by
  have hin := h.onChars.inside
  have hcolumn := hin.column
  have hoffset := hin.offset_eq
  rw [h.offset] at hoffset
  rw [length_getLine hin.line]
  unfold Document.length hexLineWidth at *
  rw [h.bytes]
  omega

/-- On a byte of the document the cursor is drawn over one character. -/
theorem cursorOn_here (refused : Refusal) (h : v.At bytes offset low)
    (hlt : offset < bytes.length) {x : Nat}
    (hx : v.cursor.position.column.toNat * factor v.selectedArea +
      (if v.selectedArea = .hex ∧ v.cursor.position.nibbleindex = 0 then 1 else 0) = x) :
    v.cursorOn refused v.selectedArea v.cursor.position.line = some ⟨x, x + 1⟩ := by
  have hcolumn := h.onChars.inside.column
  have hshort := h.column_lt hlt
  have hlength := length_drawn v.document v.selectedArea v.cursor.position.line
  unfold View.cursorOn
  generalize (v.highlight refused _ _).getD _ = c
  generalize (v.document.drawn v.selectedArea v.cursor.position.line).length = length at *
  cases harea : v.selectedArea with
  | hex =>
    simp only [harea, factor, true_and] at hx hlength
    have hset :
        c.clearSelection.setPosition refused length (v.cursor.position.column * 3) = ⟨_, _⟩ :=
      setPosition_taken refused c.clearSelection (by omega) (by omega)
    unfold QHexCursor.applyCursorHex
    simp only [ne_eq, not_true, if_false, hset, true_and, reduceCtorEq]
    by_cases hnibble : v.cursor.position.nibbleindex = 0
    · rw [if_pos hnibble] at hx ⊢
      unfold QTextCursor.moveRight QTextCursor.right
      dsimp only
      congr 2
      · omega
      · omega
    · rw [if_neg hnibble] at hx ⊢
      unfold QTextCursor.right
      dsimp only
      congr 2
      · omega
      · omega
  | ascii =>
    simp only [harea, factor, reduceCtorEq, false_and, if_false] at hx hlength
    have hset : c.clearSelection.setPosition refused length v.cursor.position.column = ⟨_, _⟩ :=
      setPosition_taken refused c.clearSelection (by omega) (by omega)
    unfold QHexCursor.applyCursorAscii
    simp only [ne_eq, not_true, if_false, hset, QTextCursor.right]
    congr 2
    · omega
    · omega

/-- In the overwrite mode, on a byte of the document and with nothing selected. -/
theorem typed_is_seen (refused : Refusal) (v : View) (bytes : List Byte) (offset : Nat)
    (low : Prop) (key : Byte) (h : v.At bytes offset low) (hlt : offset < bytes.length)
    (hkey : v.Takes key) :
    ∃ v' c, v.processTextInput false key = some v' ∧
      v.cursorOn refused v.selectedArea v.cursor.position.line = some c ∧
      c.position = c.anchor + 1 ∧
      ∀ line ≤ v.document.documentLastLine,
        v'.document.drawn v.selectedArea line =
          if line = v.cursor.position.line then
            (v.document.drawn v.selectedArea line).set c.anchor key
          else v.document.drawn v.selectedArea line := by
  obtain ⟨v', b, htype, hbytes, hcell⟩ := processTextInput_over h hlt hkey
  have hin := h.onChars.inside
  have hcolumn := h.column_lt hlt
  refine ⟨v', _, htype, cursorOn_here refused h hlt rfl, rfl, fun line hline => ?_⟩
  have hset : v'.document.bytes = v.document.bytes.set v.cursor.position.offset.toNat b := by
    rw [hbytes, h.offset, Int.toNat_natCast]
  have hlast := documentLastLine_set hbytes
  have hk : (if v.selectedArea = .hex ∧ v.cursor.position.nibbleindex = 0 then 1 else 0) <
      factor v.selectedArea := by
    cases v.selectedArea with
    | hex =>
      show _ < 3
      split
      · decide
      · decide
    | ascii =>
      rw [if_neg fun hboth => Area.noConfusion hboth.1]
      decide
  rw [drawn_cells, drawn_cells, hlast, getLine_set hin hset hline]
  by_cases hhere : line = v.cursor.position.line
  · subst hhere
    have hbyte : ∀ old, (v.document.getLine v.cursor.position.line)[
        v.cursor.position.column.toNat]? = some old →
          v.document.bytes[offset]? = some old := by
      intro old hold
      have hoffset := hin.offset_eq
      rw [h.offset] at hoffset
      have hplace : hexLineWidth * v.cursor.position.line.toNat +
          v.cursor.position.column.toNat = offset := by
        have hpos := hin.column
        unfold hexLineWidth at *
        omega
      rw [getLine_bytes hin.line, List.getElem?_take, List.getElem?_drop, hplace] at hold
      split at hold
      · exact hold
      · cases hold
    dsimp only
    rw [if_pos rfl, if_pos rfl, cells_set _ _ _ b key hk fun old hold => hcell old (hbyte old hold),
      List.set_append_left]
    rw [length_cells]
    have hmul := Nat.mul_le_mul_right (factor v.selectedArea) (Nat.succ_le_of_lt hcolumn)
    rw [Nat.succ_mul] at hmul
    omega
  · rw [if_neg hhere, if_neg hhere]

/-- The second digit of the one byte of a document. -/
theorem typed_is_seen_low :
    let v : View := ⟨⟨[0xAB], by decide⟩, ⟨⟨0, 0, 0⟩, ⟨0, 0, 0⟩⟩, .hex, true⟩
    ∃ v' c, v.processTextInput false 0x35 = some v' ∧
      v.cursorOn (fun c _ _ => c) .hex 0 = some c ∧ c.position = c.anchor + 1 ∧
      ∀ line ≤ v.document.documentLastLine,
        v'.document.drawn .hex line =
          if line = 0 then (v.document.drawn .hex line).set c.anchor 0x35
          else v.document.drawn .hex line :=
  typed_is_seen (fun c _ _ => c) ⟨⟨[0xAB], by decide⟩, ⟨⟨0, 0, 0⟩, ⟨0, 0, 0⟩⟩, .hex, true⟩ [0xAB] 0
    True 0x35
    ⟨⟨⟨by decide, by decide⟩, by decide, .inr (.inl rfl)⟩, rfl, rfl, rfl, by decide⟩ (by decide)
    (show (View.hexValue 0x35).isSome by decide)

end HexView
end Xsky
