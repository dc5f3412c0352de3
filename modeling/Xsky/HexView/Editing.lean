import Xsky.HexView.Clipboard

/-!
# HexView.Editing

Backspace and Delete in `QHexView::processAction`, in a view that is not read only.

Without a selection both give up on the first byte, though Delete would take it. With one, the
cursor goes to the byte behind the start of the selection, and only Backspace moves it back.

* `backspace_takes_back` — typed bytes in the insert mode, and as many times Backspace.
* `deletes_iff` — when Delete takes the bytes from the cursor on.
* `erase_inside_iff` — when the cursor stays on a column there is.
-/

namespace Xsky
namespace HexView

open Kit

inductive EraseKey where
  | backspace
  | delete

namespace View

def withDocument (v : View) (d : Document) : View := { v with document := d }

/-- In the hexadecimal area a byte is two steps. -/
def moveBack (v : View) : View :=
  match v.selectedArea with
  | .hex => (v.movePrevious false).movePrevious false
  | .ascii => v.movePrevious false

def erase (v : View) (key : EraseKey) : Option View :=
  let offset := v.cursor.position.offset
  if v.cursor.hasSelection = false ∧ offset ≤ 0 then some v
  else
    let removed :=
      if v.cursor.hasSelection = false then
        match key with
        | .backspace => v.edit (.remove (offset - 1).toNat 1)
        | .delete => v.edit (.remove offset.toNat 1)
      else
        let oldpos := v.cursor.selectionStart
        v.removeSelection.map fun v => v.go false oldpos.line (oldpos.column + 1) 1
    match key with
    | .backspace => removed.map moveBack
    | .delete => removed

end View

def eraseStep (v : View) (key : EraseKey) : Option View := v.erase key

/-! ## Without a selection -/

variable {v : View} {bytes : List Byte} {offset : Nat} {low : Prop}

/-- A document gets no longer by it. -/
theorem edit_remove (v : View) (start length : Nat) :
    ∃ d : Document, v.edit (.remove start length) = some (v.withDocument d) ∧
      d.bytes = QMemoryBuffer.remove v.document.bytes start length := by
  have hexact := v.document.exact
  have hlt : (QMemoryBuffer.remove v.document.bytes start length).length < 2 ^ 24 := by
    unfold QMemoryBuffer.remove
    rw [List.length_append, List.length_take, List.length_drop]
    omega
  refine ⟨⟨_, hlt⟩, ?_, rfl⟩
  have hsome : v.document.edit (.remove start length) = some ⟨_, hlt⟩ := dif_pos hlt
  unfold View.edit
  rw [hsome, Option.map_some]
  rfl

/-- Where the cursor goes does not depend on the document. -/
theorem movePrevious_cases (v : View) (d : Document) (select : Bool) :
    ((v.withDocument d).movePrevious select = v.withDocument d ∧ v.movePrevious select = v) ∨
      ∃ line column nibbleindex,
        (v.withDocument d).movePrevious select =
          (v.withDocument d).go select line column nibbleindex ∧
        v.movePrevious select = v.go select line column nibbleindex := by
  unfold View.movePrevious View.withDocument
  dsimp only
  generalize (if v.selectedArea = .hex then (v.cursor.position.nibbleindex - 1).tmod 2
    else 1) = previous
  generalize (if v.selectedArea = .ascii ∨ previous = 0 then v.cursor.position.column - 1
    else v.cursor.position.column) = column
  split
  · exact .inl ⟨rfl, rfl⟩
  · split
    · exact .inl ⟨rfl, rfl⟩
    · split
      · exact .inr ⟨_, _, _, rfl, rfl⟩
      · exact .inr ⟨_, _, _, rfl, rfl⟩

theorem movePrevious_withDocument (v : View) (d : Document) (select : Bool) :
    (v.withDocument d).movePrevious select = (v.movePrevious select).withDocument d := by
  obtain ⟨hwith, hown⟩ | ⟨line, column, nibbleindex, hwith, hown⟩ :=
    movePrevious_cases v d select
  · rw [hwith, hown]
  · rw [hwith, hown]
    rfl

theorem moveBack_withDocument (v : View) (d : Document) :
    (v.withDocument d).moveBack = v.moveBack.withDocument d := by
  have hsame : (v.withDocument d).selectedArea = v.selectedArea := rfl
  unfold View.moveBack
  rw [hsame]
  cases v.selectedArea with
  | hex =>
    dsimp only
    rw [movePrevious_withDocument, movePrevious_withDocument]
  | ascii => exact movePrevious_withDocument v d false

theorem movePrevious_unselected (h : v.cursor.position = v.cursor.selection) :
    (v.movePrevious false).cursor.position = (v.movePrevious false).cursor.selection := by
  obtain ⟨-, hown⟩ | ⟨line, column, nibbleindex, -, hown⟩ :=
    movePrevious_cases v v.document false
  · rwa [hown]
  · rw [hown]
    rfl

theorem View.At.hasSelection (h : v.At bytes offset low) : v.cursor.hasSelection = false := by
  unfold QHexCursor.hasSelection
  simp [h.unselected]

/-- A whole byte back. -/
theorem View.At.moveBack (h : v.At bytes offset low) (hpos : 0 < offset) :
    ∃ low', v.moveBack.At bytes (offset - 1) low' ∧ v.moveBack.selectedArea = v.selectedArea ∧
      (v.selectedArea = .hex → (low' ↔ low)) := by
  have hone := movePrevious_walked h.onChars false
  unfold View.moveBack
  cases harea : v.selectedArea with
  | ascii =>
    have hplace := hone.place
    rw [place_ascii (hone.selectedArea.trans harea), place_ascii harea, h.offset] at hplace
    refine ⟨_, ⟨hone.onChars, movePrevious_unselected h.unselected, ?_, ?_, Iff.rfl⟩,
      hone.selectedArea.trans harea, fun hhex => by cases hhex⟩
    · rw [hone.document, h.bytes]
    · rw [hplace]
      unfold walk
      simp only [Bool.false_eq_true, if_false]
      rw [if_pos (by omega)]
      omega
  | hex =>
    have htwo := movePrevious_walked hone.onChars false
    have hunselected := movePrevious_unselected (movePrevious_unselected h.unselected)
    have hplace := htwo.place
    rw [hone.place, place_hex (htwo.selectedArea.trans (hone.selectedArea.trans harea)),
      place_hex harea, h.offset] at hplace
    -- two places back, from the second one of the document on
    have hback (place last : Int) (hpos : 2 ≤ place) :
        walk last (walk last place false) false = place - 2 := by
      unfold walk
      simp only [Bool.false_eq_true, if_false]
      rw [if_pos (by omega), if_pos (by omega)]
      omega
    have hend : (v.movePrevious false).placeEnd = v.placeEnd := by
      unfold View.placeEnd
      rw [hone.selectedArea, hone.document]
    rw [hend, hback _ _ (by split <;> omega)] at hplace
    have hnibble : ((v.movePrevious false).movePrevious false).cursor.position.nibbleindex = 0 ↔
        v.cursor.position.nibbleindex = 0 := by
      split at hplace <;> split at hplace <;> omega
    refine ⟨_, ⟨htwo.onChars, hunselected, ?_, ?_, hnibble.trans h.nibble⟩,
      htwo.selectedArea.trans (hone.selectedArea.trans harea), fun _ => Iff.rfl⟩
    · rw [htwo.document, hone.document, h.bytes]
    · show ((v.movePrevious false).movePrevious false).cursor.position.offset = (offset - 1 : Nat)
      simp only [hnibble] at hplace
      omega

/-- The document gets shorter, and the cursor is still in it. -/
theorem View.At.withDocument (h : v.At bytes offset low) {d : Document} {bytes' : List Byte}
    (hbytes : d.bytes = bytes') (hle : offset ≤ bytes'.length) :
    (v.withDocument d).At bytes' offset low := by
  have hin := h.onChars.inside
  have hoffset := hin.offset_eq
  have hcolumn := hin.column
  rw [h.offset] at hoffset
  have hlength : d.length = bytes'.length := by
    unfold Document.length
    rw [hbytes]
  refine ⟨⟨⟨?_, hin.column⟩, ?_, h.onChars.nibble⟩, h.unselected, hbytes, h.offset, h.nibble⟩
  · show v.cursor.position.line ≤ d.documentLastLine
    rw [BitVec.le_def, Document.documentLastLine_toNat, hlength]
    unfold hexLineWidth at *
    omega
  · show v.cursor.position.offset ≤ d.length
    rw [h.offset, hlength]
    omega

theorem erase_backspace (h : v.At bytes offset low) (hpos : 0 < offset) :
    ∃ v' low', v.erase .backspace = some v' ∧
      v'.At (bytes.take (offset - 1) ++ bytes.drop offset) (offset - 1) low' ∧
      v'.selectedArea = v.selectedArea ∧ (v.selectedArea = .hex → (low' ↔ low)) := by
  obtain ⟨low', hat, harea, hlow⟩ := h.moveBack hpos
  obtain ⟨d, hedit, hbytes⟩ := edit_remove v (offset - 1) 1
  have hnone := h.hasSelection
  have hle := h.offset_le
  have htoNat : (v.cursor.position.offset - 1).toNat = offset - 1 := by
    rw [h.offset]
    omega
  refine ⟨(v.withDocument d).moveBack, low', ?_, ?_, ?_, hlow⟩
  · unfold View.erase
    simp only [hnone, htoNat, if_true, hedit, Option.map_some]
    rw [if_neg (by rw [h.offset]; omega)]
  · rw [moveBack_withDocument]
    refine hat.withDocument ?_ ?_
    · rw [hbytes, h.bytes]
      unfold QMemoryBuffer.remove
      rw [Nat.sub_add_cancel hpos]
    · rw [List.length_append, List.length_take]
      omega
  · rw [moveBack_withDocument]
    exact harea

theorem erase_delete (h : v.At bytes offset low) (hpos : 0 < offset) :
    ∃ v', v.erase .delete = some v' ∧
      v'.At (bytes.take offset ++ bytes.drop (offset + 1)) offset low := by
  obtain ⟨d, hedit, hbytes⟩ := edit_remove v offset 1
  have hnone := h.hasSelection
  have hle := h.offset_le
  have htoNat : v.cursor.position.offset.toNat = offset := by rw [h.offset, Int.toNat_natCast]
  refine ⟨v.withDocument d, ?_, h.withDocument ?_ ?_⟩
  · unfold View.erase
    simp only [hnone, htoNat, if_true, hedit]
    rw [if_neg (by rw [h.offset]; omega)]
  · rw [hbytes, h.bytes]
    rfl
  · rw [List.length_append, List.length_take]
    omega

/-- Neither key erases the first byte, with the cursor on it. -/
theorem erase_first (h : v.At bytes 0 low) (key : EraseKey) : v.erase key = some v := by
  have hnone := h.hasSelection
  unfold View.erase
  exact if_pos ⟨hnone, by rw [h.offset]; omega⟩

/-! ## Many keys -/

theorem backspaces (n : Nat) (h : v.At bytes offset low) (hle : n ≤ offset) :
    ∃ v' low', run eraseStep v (List.replicate n .backspace) = some v' ∧
      v'.At (bytes.take (offset - n) ++ bytes.drop offset) (offset - n) low' ∧
      v'.selectedArea = v.selectedArea ∧ (v.selectedArea = .hex → (low' ↔ low)) := by
  induction n generalizing v bytes offset low with
  | zero =>
    refine ⟨v, low, rfl, ?_, rfl, fun _ => Iff.rfl⟩
    rw [Nat.sub_zero, List.take_append_drop]
    exact h
  | succ n ih =>
    obtain ⟨v1, low1, hone, hat1, hsame1, hlow1⟩ := erase_backspace h (by omega)
    obtain ⟨v', low', hrest, hat, hsame, hlow⟩ := ih hat1 (by omega)
    have hfront : (bytes.take (offset - 1)).length = offset - 1 := by
      have hall := h.offset_le
      rw [List.length_take]
      omega
    refine ⟨v', low', ?_, ?_, hsame.trans hsame1, fun hhex => ?_⟩
    · have hstep : eraseStep v .backspace = some v1 := hone
      rw [List.replicate_succ, run_cons hstep]
      exact hrest
    · rw [List.take_append_of_le_length (by omega), List.take_take, List.drop_left' hfront] at hat
      rw [show offset - (n + 1) = offset - 1 - n by omega]
      rwa [Nat.min_eq_left (by omega)] at hat
    · rw [hlow (hsame1.trans hhex), hlow1 hhex]

theorem deletes (n : Nat) (h : v.At bytes offset low) (hpos : 0 < offset) :
    ∃ v', run eraseStep v (List.replicate n .delete) = some v' ∧
      v'.At (bytes.take offset ++ bytes.drop (offset + n)) offset low := by
  induction n generalizing v bytes with
  | zero =>
    refine ⟨v, rfl, ?_⟩
    rw [Nat.add_zero, List.take_append_drop]
    exact h
  | succ n ih =>
    obtain ⟨v1, hone, hat1⟩ := erase_delete h hpos
    obtain ⟨v', hrest, hat⟩ := ih hat1
    have hstep : eraseStep v .delete = some v1 := hone
    have hfront : (bytes.take offset).length = offset := by
      rw [List.length_take, Nat.min_eq_left h.offset_le]
    refine ⟨v', ?_, ?_⟩
    · rw [List.replicate_succ, run_cons hstep]
      exact hrest
    · rw [List.take_left' hfront, ← List.drop_drop, List.drop_left' hfront, List.drop_drop] at hat
      rwa [show offset + (n + 1) = offset + 1 + n by omega]

theorem erases_first (n : Nat) (h : v.At bytes 0 low) (key : EraseKey) :
    run eraseStep v (List.replicate n key) = some v := by
  have hstep : eraseStep v key = some v := erase_first h key
  induction n with
  | zero => rfl
  | succ n ih => rw [List.replicate_succ, run_cons hstep, ih]

/-- `n` times Delete takes the `n` bytes from the cursor on, if and only if the cursor is not on the
first one. -/
theorem deletes_iff (n : Nat) (v : View) (bytes : List Byte) (offset : Nat) (low : Prop)
    (h : v.At bytes offset low) :
    (∃ v', run eraseStep v (List.replicate n .delete) = some v' ∧
        v'.At (bytes.take offset ++ bytes.drop (offset + n)) offset low) ↔
      offset ≠ 0 ∨ n = 0 ∨ bytes = [] := by
  by_cases hfirst : offset = 0
  · subst hfirst
    rw [erases_first n h]
    constructor
    · rintro ⟨v', hsame, hat⟩
      cases hsame
      have hbytes := hat.bytes
      rw [h.bytes, List.take_zero, List.nil_append, Nat.zero_add] at hbytes
      have hlength := congrArg List.length hbytes
      rw [List.length_drop] at hlength
      by_cases hn : n = 0
      · exact .inr (.inl hn)
      · exact .inr (.inr (List.eq_nil_of_length_eq_zero (by omega)))
    · rintro (hne | rfl | rfl)
      · exact absurd rfl hne
      · exact ⟨v, rfl, by rwa [List.take_zero, List.drop_zero, List.nil_append]⟩
      · exact ⟨v, rfl, by rwa [List.take_nil, List.drop_nil, List.nil_append]⟩
  · exact iff_of_true (deletes n h (Nat.pos_of_ne_zero hfirst)) (.inl hfirst)

/-- On the only byte of a document. -/
theorem deletes_one :
    let v : View := ⟨⟨[0x0A], by decide⟩, .new, .hex, true⟩
    (∃ v', run eraseStep v (List.replicate 1 .delete) = some v' ∧
        v'.At ([0x0A].take 0 ++ [0x0A].drop (0 + 1)) 0 False) ↔
      0 ≠ 0 ∨ 1 = 0 ∨ [(0x0A : Byte)] = [] :=
  deletes_iff 1 ⟨⟨[0x0A], by decide⟩, .new, .hex, true⟩ [0x0A] 0 False
    ⟨new_onChars ⟨[0x0A], by decide⟩ .hex true, rfl, rfl, rfl, by decide⟩

/-! ## With a selection -/

/-- Back from the byte behind the start of the selection. -/
theorem moveBack_go (v : View) (line : BitVec 64) {column : Int} (hcolumn : 0 ≤ column) :
    ∃ nibbleindex,
      (v.go false line (column + 1) 1).moveBack = v.go false line column nibbleindex := by
  have hmax : max 0 column = column := by omega
  have hnot : ¬ column < 0 := by omega
  have hbehind : ¬ column + 1 = 0 := by omega
  have hone : column + 1 - 1 = column := by omega
  have harea : (v.go false line (column + 1) 1).selectedArea = v.selectedArea := rfl
  unfold View.moveBack
  rw [harea]
  cases harea : v.selectedArea with
  | hex =>
    -- first to the second half of the byte before, then to its first one
    have hhigh :
        (v.go false line (column + 1) 1).movePrevious false = v.go false line column 0 := by
      simp [View.movePrevious, View.go, QHexCursor.moveTo, harea, hmax, hnot, hbehind, hone]
    have hlow : (v.go false line column 0).movePrevious false = v.go false line column (-1) := by
      simp [View.movePrevious, View.go, QHexCursor.moveTo, harea, hmax, hnot]
    refine ⟨-1, ?_⟩
    dsimp only
    rw [hhigh, hlow]
  | ascii =>
    refine ⟨1, ?_⟩
    simp [View.movePrevious, View.go, QHexCursor.moveTo, harea, hmax, hnot, hbehind, hone]

/-- What is left goes up to the start of the selection, or is as long as before. -/
theorem start_line_le (h : v.Inside) {d : Document} {rest : List Byte}
    (hbytes : d.bytes = v.document.bytes.take v.cursor.selectionStart.offset.toNat ++ rest) :
    v.cursor.selectionStart.line ≤ d.documentLastLine := by
  have hstart := selectionStart_in h
  have hcolumn := hstart.column
  have hoffset := hstart.offset_eq
  have hline := hstart.line
  rw [BitVec.le_def, Document.documentLastLine_toNat] at hline ⊢
  have hlength : min v.cursor.selectionStart.offset.toNat v.document.bytes.length ≤
      d.bytes.length := by
    rw [hbytes, List.length_append, List.length_take]
    exact Nat.le_add_right _ _
  unfold Document.length hexLineWidth at *
  omega

/-- The selected bytes are gone; and the cursor is on a column there is, if and only if the key is
Backspace or there is a column behind the one the selection started at. Otherwise it is on the one
behind the last. -/
theorem erase_inside_iff (v : View) (key : EraseKey) (h : v.Inside)
    (hselection : v.cursor.hasSelection) :
    ∃ v', v.erase key = some v' ∧
      v'.document.bytes = v.document.bytes.take v.cursor.selectionStart.offset.toNat ++
        v.document.bytes.drop (v.cursor.selectionEnd.offset.toNat + 1) ∧
      (v'.Inside ↔ key = .backspace ∨ v.cursor.selectionStart.column + 1 < hexLineWidth) ∧
      (¬ v'.Inside → v'.cursor.position.column = hexLineWidth) := by
  have hcolumn := (selectionStart_in h).column
  have hle := selectionStart_le h
  have hnonneg := In_offset_nonneg (selectionStart_in h)
  obtain ⟨d, hedit, hremoved⟩ := edit_remove v v.cursor.selectionStart.offset.toNat
    v.cursor.selectionLength.toNat
  have hbytes : d.bytes = v.document.bytes.take v.cursor.selectionStart.offset.toNat ++
      v.document.bytes.drop (v.cursor.selectionEnd.offset.toNat + 1) := by
    rw [hremoved]
    unfold QMemoryBuffer.remove QHexCursor.selectionLength
    congr 2
    omega
  have hline := start_line_le h hbytes
  -- the cursor goes where it is told, whatever it was
  have hremove : v.removeSelection.map (fun w => w.go false v.cursor.selectionStart.line
      (v.cursor.selectionStart.column + 1) 1) =
        some ((v.withDocument d).go false v.cursor.selectionStart.line
          (v.cursor.selectionStart.column + 1) 1) := by
    unfold View.removeSelection
    rw [if_pos hselection, hedit]
    rfl
  have herase : v.erase key = match key with
      | .backspace => some ((v.withDocument d).go false v.cursor.selectionStart.line
          (v.cursor.selectionStart.column + 1) 1).moveBack
      | .delete => some ((v.withDocument d).go false v.cursor.selectionStart.line
          (v.cursor.selectionStart.column + 1) 1) := by
    unfold View.erase
    simp only [hselection, Bool.true_eq_false, false_and, if_false, hremove]
    cases key with
    | backspace => rfl
    | delete => rfl
  cases key with
  | backspace =>
    obtain ⟨nibbleindex, hback⟩ :=
      moveBack_go (v.withDocument d) v.cursor.selectionStart.line hcolumn.1
    rw [hback] at herase
    have hinside : ((v.withDocument d).go false v.cursor.selectionStart.line
        v.cursor.selectionStart.column nibbleindex).Inside :=
      ⟨⟨hline, hcolumn⟩, ⟨hline, hcolumn⟩⟩
    exact ⟨_, herase, hbytes, iff_of_true hinside (.inl rfl), fun hout => absurd hinside hout⟩
  | delete =>
    have hinside : v.cursor.selectionStart.column + 1 < hexLineWidth →
        ((v.withDocument d).go false v.cursor.selectionStart.line
          (v.cursor.selectionStart.column + 1) 1).Inside := by
      intro hlt
      have hpos : 0 ≤ v.cursor.selectionStart.column + 1 := by omega
      exact ⟨⟨hline, hpos, hlt⟩, ⟨hline, hpos, hlt⟩⟩
    refine ⟨_, herase, hbytes, ⟨fun h => .inr h.position.column.2, ?_⟩, fun hout => ?_⟩
    · rintro (hkey | hlt)
      · cases hkey
      · exact hinside hlt
    · have hnot := mt hinside hout
      show v.cursor.selectionStart.column + 1 = hexLineWidth
      omega

/-- The last byte of the first line, selected from the one before it. -/
theorem erase_inside_last :
    let v : View := ⟨⟨List.replicate 20 0x41, by decide⟩, ⟨⟨0, 15, 0⟩, ⟨0, 15, 1⟩⟩, .hex, true⟩
    ∃ v', v.erase .delete = some v' ∧
      v'.document.bytes = v.document.bytes.take v.cursor.selectionStart.offset.toNat ++
        v.document.bytes.drop (v.cursor.selectionEnd.offset.toNat + 1) ∧
      (v'.Inside ↔ EraseKey.delete = .backspace ∨
        v.cursor.selectionStart.column + 1 < hexLineWidth) ∧
      (¬ v'.Inside → v'.cursor.position.column = hexLineWidth) :=
  erase_inside_iff _ .delete ⟨⟨by decide, by decide⟩, ⟨by decide, by decide⟩⟩ (by decide)

end HexView
end Xsky
