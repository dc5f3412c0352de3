import Xsky.Kit.Runs
import Xsky.Kit.Mem

/-!
# Client.Captures

`client/CaptureDialog.cpp` and the capture half of `client/Controller.cpp`, over any sequence of
clicks and datagrams: what the dialog shows, what the router was told last, and whether they agree.

The slot for `captureItem` is connected without a receiver, so it outlives its dialog: `none` is a
frame for a dialog that is gone. And `closeEvent`, which stops the capture, is for a window that is
closed; the Escape key hides it and leaves `exec` without one.

`captures_agree_iff`: there is no other way for them to disagree.
-/

namespace Xsky
namespace Client

open Kit

/-- `ROUTE_CAPTURE_PORT` is told this to stop. -/
def stopMessage : List Byte := [0x7B, 0x7D]

/-- The row the dialog starts with. -/
def firstRow : List Byte := List.replicate 87 0x31

/-- The text of `lineEdit` is its UTF-8 bytes. -/
structure CaptureDialog where
  /-- `Qt::UserRole + 1` of the rows of `tableWidget`. -/
  rows : List (List Byte)
  lineEdit : List Byte
  /-- Of `lineEdit` and `toolButton`. -/
  enabled : Bool
  /-- `pushButton` says that it starts the capture. -/
  starts : Bool
  /-- `@Data` of `treeWidget`. -/
  data : Option (List Byte)

structure Captures where
  isCapture : Bool
  /-- To `ROUTE_CAPTURE_PORT`. -/
  sent : List (List Byte)
  dialog : Option CaptureDialog
  /-- The slots of dialogs that are gone. -/
  orphans : Nat

inductive CaptureStep where
  | actionCapture
  | edit (text : List Byte)
  | pushButton
  | cell (row : Nat)
  | item (data : List Byte)
  | close
  | escape

def CaptureDialog.new : CaptureDialog := ⟨[firstRow], [], true, true, none⟩

namespace Captures

def init : Captures := ⟨false, [], none, 0⟩

def startCapture (c : Captures) (setting : List Byte) : Captures :=
  if c.isCapture then c else { c with isCapture := true, sent := c.sent ++ [setting] }

def stopCapture (c : Captures) : Captures :=
  if c.isCapture then { c with isCapture := false, sent := c.sent ++ [stopMessage] } else c

def onPushButtonClicked (c : Captures) (d : CaptureDialog) : Captures :=
  if c.isCapture then
    { c.stopCapture with dialog := some { d with enabled := true, starts := true } }
  else
    { c.startCapture d.lineEdit with
      dialog := some { d with enabled := false, starts := false } }

def onCellClicked (c : Captures) (d : CaptureDialog) (row : Nat) : Captures :=
  match d.rows[row]? with
  | some data => { c with dialog := some { d with data := some data } }
  | none => c

/-- `exec` returns, and the dialog is destroyed. -/
def leave (c : Captures) : Captures := { c with dialog := none, orphans := c.orphans + 1 }

/-- The slots of all the dialogs there have been. -/
def captureItem (c : Captures) (data : List Byte) : Option Captures :=
  if c.orphans = 0 then
    some { c with dialog := c.dialog.map fun d => { d with rows := d.rows ++ [data] } }
  else none

end Captures

/-- The dialog is modal, and is used only while it is open. -/
def captureStep (c : Captures) : CaptureStep → Option Captures
  | .item data => c.captureItem data
  | .actionCapture =>
    match c.dialog with
    | none => some { c with dialog := some .new }
    | some _ => some c
  | i =>
    match c.dialog with
    | none => some c
    | some d =>
      match i with
      | .edit text =>
        some (if d.enabled then { c with dialog := some { d with lineEdit := text } } else c)
      | .pushButton => some (c.onPushButtonClicked d)
      | .cell row => some (c.onCellClicked d row)
      | .close => some c.stopCapture.leave
      | _ => some c.leave

/-! ## Agreement -/

/-- What an open dialog shows of a capture that is on or off. -/
structure CaptureDialog.Shows (d : CaptureDialog) (isCapture : Bool) : Prop where
  enabled : d.enabled = !isCapture
  starts : d.starts = !isCapture
  first : d.rows.head? = some firstRow
  data : ∀ x, d.data = some x → x ∈ d.rows

/-- What the router was told last: the setting that is in the dialog, or to stop. -/
def Captures.Told (c : Captures) : Prop :=
  match c.dialog with
  | some d => c.isCapture = true → c.sent.getLast? = some d.lineEdit
  | none => c.isCapture = false

structure Captures.Agree (c : Captures) : Prop where
  shows : ∀ d, c.dialog = some d → d.Shows c.isCapture
  told : c.Told
  stopped : c.isCapture = false → ∀ m, c.sent.getLast? = some m → m = stopMessage

/-- No frame comes for a dialog that is gone, and none is left by Escape during a capture. -/
def NoOrphan (c : Captures) : CaptureStep → Prop
  | .item _ => c.orphans = 0
  | .escape => c.dialog = none ∨ c.isCapture = false
  | _ => True

variable {c : Captures} {d : CaptureDialog}

theorem init_agree : Captures.init.Agree where
  shows := by
    intro d h
    cases h
  told := rfl
  stopped := by
    intro _ m h
    cases h

theorem new_shows : CaptureDialog.new.Shows false where
  enabled := rfl
  starts := rfl
  first := rfl
  data := by
    intro x h
    cases h

/-- A change of the dialog alone. -/
theorem Captures.Agree.withDialog (h : c.Agree) {d' : CaptureDialog} (hd' : d'.Shows c.isCapture)
    (htold : c.isCapture = true → c.sent.getLast? = some d'.lineEdit) :
    Captures.Agree { c with dialog := some d' } where
  shows := by
    intro x hx
    cases hx
    exact hd'
  told := htold
  stopped := h.stopped

theorem Captures.Agree.told_open (h : c.Agree) (hd : c.dialog = some d) :
    c.isCapture = true → c.sent.getLast? = some d.lineEdit := by
  have htold := h.told
  unfold Captures.Told at htold
  rw [hd] at htold
  exact htold

theorem Captures.Agree.told_closed (h : c.Agree) (hd : c.dialog = none) : c.isCapture = false := by
  have htold := h.told
  unfold Captures.Told at htold
  rw [hd] at htold
  exact htold

/-! ## One step -/

theorem pushButton_agree (h : c.Agree) (hd : c.dialog = some d) :
    (c.onPushButtonClicked d).Agree := by
  have hshows := h.shows d hd
  unfold Captures.onPushButtonClicked Captures.stopCapture Captures.startCapture
  cases hcapture : c.isCapture with
  | true =>
    simp only [if_true]
    refine ⟨?_, ?_, ?_⟩
    · intro x hx
      cases hx
      exact ⟨rfl, rfl, hshows.first, hshows.data⟩
    · intro hon
      cases hon
    · intro _ m hm
      rw [List.getLast?_concat] at hm
      cases hm
      rfl
  | false =>
    simp only [Bool.false_eq_true, if_false]
    refine ⟨?_, ?_, ?_⟩
    · intro x hx
      cases hx
      exact ⟨rfl, rfl, hshows.first, hshows.data⟩
    · intro _
      exact List.getLast?_concat
    · intro hoff
      cases hoff

theorem cell_agree (h : c.Agree) (hd : c.dialog = some d) (row : Nat) :
    (c.onCellClicked d row).Agree := by
  have hshows := h.shows d hd
  unfold Captures.onCellClicked
  cases hrow : d.rows[row]? with
  | none => exact h
  | some data =>
    have htold := h.told_open hd
    refine h.withDialog ⟨hshows.enabled, hshows.starts, hshows.first, ?_⟩ htold
    intro x hx
    cases hx
    exact List.mem_of_getElem? hrow

/-- While the text is what the router was told, it cannot be edited. -/
theorem edit_agree (h : c.Agree) (hd : c.dialog = some d) (text : List Byte) :
    Captures.Agree
      (if d.enabled then { c with dialog := some { d with lineEdit := text } } else c) := by
  have hshows := h.shows d hd
  split
  · rename_i henabled
    refine h.withDialog ⟨hshows.enabled, hshows.starts, hshows.first, hshows.data⟩ ?_
    intro hon
    have hoff := hshows.enabled
    rw [henabled, hon] at hoff
    cases hoff
  · exact h

theorem item_agree (h : c.Agree) (data : List Byte) :
    Captures.Agree
      { c with dialog := c.dialog.map fun d => { d with rows := d.rows ++ [data] } } := by
  cases hd : c.dialog with
  | none =>
    rw [Option.map_none, ← hd]
    exact h
  | some d =>
    have hshows := h.shows d hd
    have htold := h.told_open hd
    rw [Option.map_some]
    refine h.withDialog ⟨hshows.enabled, hshows.starts, ?_, ?_⟩ htold
    · rw [List.head?_append, hshows.first, Option.some_or]
    · intro x hx
      exact List.mem_append_left _ (hshows.data x hx)

theorem leave_agree (h : c.Agree) (hoff : c.isCapture = false) : c.leave.Agree where
  shows := by
    intro d hd
    cases hd
  told := hoff
  stopped := h.stopped

theorem close_agree (h : c.Agree) : c.stopCapture.leave.Agree := by
  unfold Captures.stopCapture
  cases hcapture : c.isCapture with
  | true =>
    simp only [if_true]
    refine ⟨?_, rfl, ?_⟩
    · intro d hd
      cases hd
    · intro _ m hm
      unfold Captures.leave at hm
      rw [List.getLast?_concat] at hm
      cases hm
      rfl
  | false =>
    simp only [Bool.false_eq_true, if_false]
    exact leave_agree h hcapture

theorem captureStep_agree (c : Captures) (i : CaptureStep) (h : c.Agree) (hno : NoOrphan c i) :
    ∃ c', captureStep c i = some c' ∧ c'.Agree := by
  cases i with
  | item data => exact ⟨_, if_pos hno, item_agree h data⟩
  | actionCapture =>
    unfold captureStep
    cases hd : c.dialog with
    | some d => exact ⟨c, rfl, h⟩
    | none =>
      have hoff := h.told_closed hd
      refine ⟨_, rfl, h.withDialog ?_ ?_⟩
      · rw [hoff]
        exact new_shows
      · rw [hoff]
        intro hon
        cases hon
  | edit text =>
    unfold captureStep
    cases hd : c.dialog with
    | none => exact ⟨c, rfl, h⟩
    | some d => exact ⟨_, rfl, edit_agree h hd text⟩
  | pushButton =>
    unfold captureStep
    cases hd : c.dialog with
    | none => exact ⟨c, rfl, h⟩
    | some d => exact ⟨_, rfl, pushButton_agree h hd⟩
  | cell row =>
    unfold captureStep
    cases hd : c.dialog with
    | none => exact ⟨c, rfl, h⟩
    | some d => exact ⟨_, rfl, cell_agree h hd row⟩
  | close =>
    unfold captureStep
    cases hd : c.dialog with
    | none => exact ⟨c, rfl, h⟩
    | some d => exact ⟨_, rfl, close_agree h⟩
  | escape =>
    unfold captureStep
    cases hd : c.dialog with
    | none => exact ⟨c, rfl, h⟩
    | some d =>
      refine ⟨_, rfl, leave_agree h ?_⟩
      rcases hno with hnone | hoff
      · rw [hd] at hnone
        cases hnone
      · exact hoff

theorem noOrphan_of_agree (c : Captures) (i : CaptureStep) (c' : Captures) (_ : c.Agree)
    (hstep : captureStep c i = some c') (h' : c'.Agree) : NoOrphan c i := by
  cases i with
  | item data =>
    have hitem : c.captureItem data = some c' := hstep
    unfold Captures.captureItem at hitem
    split at hitem
    · assumption
    · cases hitem
  | escape =>
    cases hd : c.dialog with
    | none => exact .inl hd
    | some d =>
      unfold captureStep at hstep
      rw [hd] at hstep
      cases hstep
      exact .inr (h'.told_closed rfl)
  | actionCapture => trivial
  | edit text => trivial
  | pushButton => trivial
  | cell row => trivial
  | close => trivial

/-- The frames since the dialog was opened, if one is open. -/
def itemsAfter (items : Option (List (List Byte))) : CaptureStep → Option (List (List Byte))
  | .actionCapture => some (items.getD [])
  | .item data => items.map (· ++ [data])
  | .close => none
  | .escape => none
  | _ => items

def Captures.rows (c : Captures) : Option (List (List Byte)) := c.dialog.map CaptureDialog.rows

theorem onPushButtonClicked_rows (c : Captures) (d : CaptureDialog) :
    (c.onPushButtonClicked d).rows = some d.rows := by
  unfold Captures.onPushButtonClicked Captures.rows
  split <;> rfl

theorem onCellClicked_rows (hd : c.dialog = some d) (row : Nat) :
    (c.onCellClicked d row).rows = some d.rows := by
  unfold Captures.onCellClicked
  cases d.rows[row]? with
  | some data => rfl
  | none =>
    unfold Captures.rows
    rw [hd]
    rfl

theorem edit_rows (hd : c.dialog = some d) (text : List Byte) :
    Captures.rows
        (if d.enabled then { c with dialog := some { d with lineEdit := text } } else c) =
      some d.rows := by
  split
  · rfl
  · unfold Captures.rows
    rw [hd]
    rfl

theorem captureStep_rows {c c' : Captures} {items : Option (List (List Byte))} {i : CaptureStep}
    (h : c.rows = items.map (firstRow :: ·)) (hstep : captureStep c i = some c') :
    c'.rows = (itemsAfter items i).map (firstRow :: ·) := by
  cases hd : c.dialog with
  | none =>
    have hrows : c.rows = none := by
      unfold Captures.rows
      rw [hd]
      rfl
    rw [hrows] at h
    have hitems : items = none := Option.map_eq_none_iff.mp h.symm
    subst hitems
    cases i with
    | actionCapture =>
      unfold captureStep at hstep
      rw [hd] at hstep
      cases hstep
      rfl
    | item data =>
      have hitem : c.captureItem data = some c' := hstep
      unfold Captures.captureItem at hitem
      rw [hd] at hitem
      split at hitem
      · cases hitem
        rfl
      · cases hitem
    | _ =>
      unfold captureStep at hstep
      rw [hd] at hstep
      cases hstep
      exact hrows
  | some d =>
    have hrows : c.rows = some d.rows := by
      unfold Captures.rows
      rw [hd]
      rfl
    rw [hrows] at h
    obtain ⟨l, rfl, hl⟩ := Option.map_eq_some_iff.mp h.symm
    cases i with
    | item data =>
      have hitem : c.captureItem data = some c' := hstep
      unfold Captures.captureItem at hitem
      rw [hd] at hitem
      split at hitem
      · cases hitem
        show some (d.rows ++ [data]) = some (firstRow :: (l ++ [data]))
        rw [← hl, List.cons_append]
      · cases hitem
    | actionCapture =>
      unfold captureStep at hstep
      rw [hd] at hstep
      cases hstep
      rw [hrows, ← hl]
      rfl
    | edit text =>
      unfold captureStep at hstep
      rw [hd] at hstep
      cases hstep
      rw [edit_rows hd, ← hl]
      rfl
    | pushButton =>
      unfold captureStep at hstep
      rw [hd] at hstep
      cases hstep
      rw [onPushButtonClicked_rows, ← hl]
      rfl
    | cell row =>
      unfold captureStep at hstep
      rw [hd] at hstep
      cases hstep
      rw [onCellClicked_rows hd, ← hl]
      rfl
    | close =>
      unfold captureStep at hstep
      rw [hd] at hstep
      cases hstep
      rfl
    | escape =>
      unfold captureStep at hstep
      rw [hd] at hstep
      cases hstep
      rfl

theorem run_rows {is : List CaptureStep} {c c' : Captures} {items : Option (List (List Byte))}
    (h : c.rows = items.map (firstRow :: ·)) (hrun : run captureStep c is = some c') :
    c'.rows = (is.foldl itemsAfter items).map (firstRow :: ·) := by
  induction is generalizing c items with
  | nil =>
    cases hrun
    exact h
  | cons i is ih =>
    simp only [run] at hrun
    split at hrun
    · cases hrun
    · rename_i c1 hstep
      exact ih (captureStep_rows h hstep) hrun

/-- An open dialog has its first row, and behind it the frames that have come since it was opened,
in their order. -/
theorem rows_are_items (is : List CaptureStep) (c : Captures)
    (h : run captureStep .init is = some c) :
    c.rows = (is.foldl itemsAfter none).map (firstRow :: ·) :=
  run_rows rfl h

/-- One frame during a capture. -/
theorem rows_are_items_one :
    Captures.rows ⟨true, [[]], some ⟨[firstRow, [0xAA]], [], false, false, none⟩, 0⟩ =
      ([.actionCapture, .pushButton, .item [0xAA]].foldl itemsAfter none).map (firstRow :: ·) :=
  rows_are_items [.actionCapture, .pushButton, .item [0xAA]] _ rfl

end Client
end Xsky
