import Mathlib.Algebra.Group.Nat.Defs
import Xsky.Kit.Runs

/-!
# HexView.Metadata

`client/QHexView/document/qhexmetadata.cpp`: marks of ranges of bytes, cut up by lines so that they
can be drawn, and cut up again when the width of the lines changes.

`Marks` is what the cut-up ranges stand for: the ranges themselves, each with the lines it was
cleared from since the last change of the width. Places in the document are from 0 on, and below
`2 ^ 63` also where they are computed of a line, so that nothing wraps.

`comments_follow`: the comment at a place is the one of the ranges it is in, whatever the width of
the lines is and has been.
-/

namespace Xsky
namespace HexView

open Kit

section

variable {γ : Type}

/-- The colours and the comment of a range. -/
structure Mark (γ : Type) where
  foreground : γ
  background : γ
  comment : String

structure QHexMetadataAbsoluteItem (γ : Type) where
  begin_ : Nat
  end_ : Nat
  mark : Mark γ

/-- On one line. -/
structure QHexMetadataItem (γ : Type) where
  start : Nat
  length : Nat
  mark : Mark γ

/-- A line without metadata has no items. -/
structure QHexMetadata (γ : Type) where
  lineWidth : Nat
  metadata : Nat → List (QHexMetadataItem γ)
  absoluteMetadata : List (QHexMetadataAbsoluteItem γ)

/-- The part of the range on this row, one of its rows; a length below 0 is 0. -/
def rowItem (lineWidth : Nat) (mai : QHexMetadataAbsoluteItem γ) (row : Nat) :
    Option (QHexMetadataItem γ) :=
  let start := if row = mai.begin_ / lineWidth then mai.begin_ % lineWidth else 0
  let length := if row = mai.end_ / lineWidth then mai.end_ % lineWidth - start else lineWidth
  if length > 0 then some ⟨start, length, mai.mark⟩ else none

/-- `setMetadata` -/
def pushItem (metadata : Nat → List (QHexMetadataItem γ)) (row : Nat)
    (mi : Option (QHexMetadataItem γ)) : Nat → List (QHexMetadataItem γ) := fun line =>
  if line = row then metadata line ++ mi.toList else metadata line

/-- The rows from the first to the last. -/
def rowsOf (lineWidth : Nat) (mai : QHexMetadataAbsoluteItem γ) : List Nat :=
  List.range' (mai.begin_ / lineWidth) (mai.end_ / lineWidth + 1 - mai.begin_ / lineWidth)

/-- `none` is a division by 0. -/
def setAbsoluteMetadata (lineWidth : Nat) (metadata : Nat → List (QHexMetadataItem γ))
    (mai : QHexMetadataAbsoluteItem γ) : Option (Nat → List (QHexMetadataItem γ)) :=
  if lineWidth = 0 then none
  else
    some ((rowsOf lineWidth mai).foldl
      (fun metadata row => pushItem metadata row (rowItem lineWidth mai row)) metadata)

def setAllMetadata (lineWidth : Nat) :
    (Nat → List (QHexMetadataItem γ)) → List (QHexMetadataAbsoluteItem γ) →
      Option (Nat → List (QHexMetadataItem γ))
  | metadata, [] => some metadata
  | metadata, mai :: rest =>
    (setAbsoluteMetadata lineWidth metadata mai).bind fun metadata =>
      setAllMetadata lineWidth metadata rest

/-- The places a `qint64` has from 0 on, and the lines whose places it still has. -/
abbrev Place := Fin (2 ^ 63)
abbrev Line := Fin (2 ^ 55)

inductive MetadataCall (γ : Type) where
  | mark (begin_ end_ : Place) (mark : Mark γ)
  /-- The older interface. -/
  | markLine (line : Line) (start length : Fin (2 ^ 31)) (mark : Mark γ)
  | clearLine (line : Fin (2 ^ 64))
  | clear
  | setLineWidth (width : Fin (2 ^ 8))

/-- On a line of its own. -/
def addComment (s : String) (mark : Mark γ) : String :=
  if mark.comment = "" then s else (if s = "" then s else s ++ "\n") ++ mark.comment

namespace QHexMetadata

def new (lineWidth : Nat) : QHexMetadata γ := ⟨lineWidth, fun _ => [], []⟩

def mark (m : QHexMetadata γ) (begin_ end_ : Nat) (mark : Mark γ) : Option (QHexMetadata γ) :=
  (setAbsoluteMetadata m.lineWidth m.metadata ⟨begin_, end_, mark⟩).map fun metadata =>
    { m with
      metadata := metadata, absoluteMetadata := m.absoluteMetadata ++ [⟨begin_, end_, mark⟩] }

def setLineWidth (m : QHexMetadata γ) (width : Nat) : Option (QHexMetadata γ) :=
  if width ≠ m.lineWidth then
    (setAllMetadata width (fun _ => []) m.absoluteMetadata).map fun metadata =>
      { m with lineWidth := width, metadata := metadata }
  else some m

def call (m : QHexMetadata γ) : MetadataCall γ → Option (QHexMetadata γ)
  | .mark begin_ end_ mark => m.mark begin_ end_ mark
  | .markLine line start length mark =>
    let begin_ := line * m.lineWidth + start
    m.mark begin_ (begin_ + length) mark
  | .clearLine line =>
    some { m with metadata := fun x => if x = line then [] else m.metadata x }
  | .clear => some { m with metadata := fun _ => [], absoluteMetadata := [] }
  | .setLineWidth width => m.setLineWidth width

def comments (m : QHexMetadata γ) (line column : Nat) : String :=
  (m.metadata line).foldl
    (fun s mi =>
      if ¬ (mi.start ≤ column ∧ column < mi.start + mi.length) then s
      else addComment s mi.mark) ""

end QHexMetadata

/-! ## What it stands for -/

/-- A range, and the lines it was cleared from. -/
structure Range (γ : Type) where
  item : QHexMetadataAbsoluteItem γ
  cleared : List Nat

/-- The ranges, in the order they were marked, and the width of the lines. -/
structure Marks (γ : Type) where
  ranges : List (Range γ)
  lineWidth : Nat

namespace Marks

def new (lineWidth : Nat) : Marks γ := ⟨[], lineWidth⟩

def mark (s : Marks γ) (begin_ end_ : Nat) (mark : Mark γ) : Marks γ :=
  { s with ranges := s.ranges ++ [⟨⟨begin_, end_, mark⟩, []⟩] }

def clearLine (s : Marks γ) (line : Nat) : Marks γ :=
  { s with ranges := s.ranges.map fun r => { r with cleared := line :: r.cleared } }

def setLineWidth (s : Marks γ) (width : Nat) : Marks γ :=
  if width ≠ s.lineWidth then ⟨s.ranges.map fun r => { r with cleared := [] }, width⟩ else s

def call (s : Marks γ) : MetadataCall γ → Marks γ
  | .mark begin_ end_ mark => s.mark begin_ end_ mark
  | .markLine line start length mark =>
    let begin_ := line * s.lineWidth + start
    s.mark begin_ (begin_ + length) mark
  | .clearLine line => s.clearLine line
  | .clear => { s with ranges := [] }
  | .setLineWidth width => s.setLineWidth width

/-- The marks at a place of the document. -/
def marksAt (s : Marks γ) (place : Nat) : List (Mark γ) :=
  (s.ranges.filter fun r =>
    r.item.begin_ ≤ place ∧ place < r.item.end_ ∧ place / s.lineWidth ∉ r.cleared).map
    fun r => r.item.mark

end Marks

def joinComments (marks : List (Mark γ)) : String := marks.foldl addComment ""

/-- A width there can be. -/
def MetadataCall.Positive : MetadataCall γ → Prop
  | .setLineWidth width => 0 < width.val
  | _ => True

end

/-! ## One line -/

variable {γ : Type} {lineWidth line column : Nat} {mai : QHexMetadataAbsoluteItem γ}

/-- The rows of a range. -/
def InRows (lineWidth : Nat) (mai : QHexMetadataAbsoluteItem γ) (line : Nat) : Prop :=
  mai.begin_ / lineWidth ≤ line ∧ line ≤ mai.end_ / lineWidth

instance (lineWidth : Nat) (mai : QHexMetadataAbsoluteItem γ) (line : Nat) :
    Decidable (InRows lineWidth mai line) := inferInstanceAs (Decidable (_ ∧ _))

/-- What a range puts on a line. -/
def lineItem (lineWidth : Nat) (mai : QHexMetadataAbsoluteItem γ) (line : Nat) :
    Option (QHexMetadataItem γ) :=
  if InRows lineWidth mai line then rowItem lineWidth mai line else none

def Covers (mi : QHexMetadataItem γ) (column : Nat) : Prop :=
  mi.start ≤ column ∧ column < mi.start + mi.length

instance (mi : QHexMetadataItem γ) (column : Nat) : Decidable (Covers mi column) :=
  inferInstanceAs (Decidable (_ ∧ _))

/-- The range `markLine` computes has places of its type. -/
theorem line_place_lt (line : Line) (start length : Fin (2 ^ 31)) (width : Fin (2 ^ 8)) :
    line.val * width.val + start.val + length.val < 2 ^ 63 := by
  have hmul := Nat.mul_le_mul (Nat.le_of_lt_succ line.isLt) (Nat.le_of_lt_succ width.isLt)
  omega

/-- The order of places is the one of lines and columns. -/
theorem place_lt_iff (hcolumn : column < lineWidth) (n : Nat) :
    line * lineWidth + column < n ↔
      line < n / lineWidth ∨ line = n / lineWidth ∧ column < n % lineWidth := by
  have hn := Nat.div_add_mod n lineWidth
  have hmod := Nat.mod_lt n (show lineWidth > 0 by omega)
  generalize n / lineWidth = row at *
  generalize n % lineWidth = rest at *
  subst hn
  rw [Nat.mul_comm line]
  rcases Nat.lt_trichotomy line row with hlt | rfl | hgt
  · obtain ⟨k, rfl⟩ : ∃ k, row = line + 1 + k := ⟨row - line - 1, by omega⟩
    rw [Nat.mul_add, Nat.mul_add]
    omega
  · omega
  · obtain ⟨k, rfl⟩ : ∃ k, line = row + 1 + k := ⟨line - row - 1, by omega⟩
    rw [Nat.mul_add, Nat.mul_add]
    omega

/-- The columns of a row that are in the range, as a start and a length. -/
theorem rowItem_covers (hcolumn : column < lineWidth) (hin : InRows lineWidth mai line) :
    ((rowItem lineWidth mai line).toList.filter fun mi => Covers mi column).map (·.mark) =
      if mai.begin_ ≤ line * lineWidth + column ∧ line * lineWidth + column < mai.end_ then
        [mai.mark]
      else [] := by
  have hbegin := @place_lt_iff lineWidth line column hcolumn mai.begin_
  have hend := @place_lt_iff lineWidth line column hcolumn mai.end_
  obtain ⟨hfirst, hlast⟩ := hin
  unfold rowItem
  dsimp only
  generalize hstart : (if line = mai.begin_ / lineWidth then mai.begin_ % lineWidth else 0) = start
  generalize hlength : (if line = mai.end_ / lineWidth then mai.end_ % lineWidth - start
    else lineWidth) = length
  have hinside : (start ≤ column ∧ column < start + length) ↔
      mai.begin_ ≤ line * lineWidth + column ∧ line * lineWidth + column < mai.end_ := by
    split at hstart <;> split at hlength <;> omega
  by_cases hcovers : start ≤ column ∧ column < start + length
  · have hpos : length > 0 := by omega
    rw [if_pos hpos, if_pos (hinside.mp hcovers)]
    simp [Covers, hcovers]
  · rw [if_neg (fun h => hcovers (hinside.mpr h))]
    split
    · simp only [Option.toList_some, Covers, hcovers, decide_false, List.filter_cons,
        Bool.false_eq_true, if_false, List.filter_nil, List.map_nil]
    · rfl

/-- On each line a range covers the columns of its bytes. -/
theorem lineItem_covers (hcolumn : column < lineWidth) :
    ((lineItem lineWidth mai line).toList.filter fun mi => Covers mi column).map (·.mark) =
      if mai.begin_ ≤ line * lineWidth + column ∧ line * lineWidth + column < mai.end_ then
        [mai.mark]
      else [] := by
  unfold lineItem
  split
  · rename_i hin
    exact rowItem_covers hcolumn hin
  · rename_i hout
    have hbegin := @place_lt_iff lineWidth line column hcolumn mai.begin_
    have hend := @place_lt_iff lineWidth line column hcolumn mai.end_
    unfold InRows at hout
    rw [if_neg (by omega)]
    rfl

/-! ## All lines -/

theorem mem_rowsOf : line ∈ rowsOf lineWidth mai ↔ InRows lineWidth mai line := by
  unfold rowsOf InRows
  rw [List.mem_range'_1]
  omega

/-- Rows that are all different get an item each. -/
theorem foldl_pushItem (item : Nat → Option (QHexMetadataItem γ)) {rows : List Nat}
    (hnodup : rows.Nodup) (metadata : Nat → List (QHexMetadataItem γ)) :
    rows.foldl (fun metadata row => pushItem metadata row (item row)) metadata line =
      metadata line ++ if line ∈ rows then (item line).toList else [] := by
  induction rows generalizing metadata with
  | nil => simp
  | cons row rows ih =>
    obtain ⟨hnot, hrest⟩ := List.nodup_cons.mp hnodup
    rw [List.foldl_cons, ih hrest]
    unfold pushItem
    by_cases hline : line = row
    · subst hline
      rw [if_pos rfl, if_neg hnot, if_pos List.mem_cons_self, List.append_nil]
    · rw [if_neg hline]
      simp [hline]

theorem setAbsoluteMetadata_line (hwidth : 0 < lineWidth)
    (metadata : Nat → List (QHexMetadataItem γ)) (mai : QHexMetadataAbsoluteItem γ) :
    ∃ metadata', setAbsoluteMetadata lineWidth metadata mai = some metadata' ∧
      ∀ line, metadata' line = metadata line ++ (lineItem lineWidth mai line).toList := by
  have hnodup : (rowsOf lineWidth mai).Nodup := List.nodup_range'
  refine ⟨_, if_neg (by omega), fun line => ?_⟩
  rw [foldl_pushItem _ hnodup]
  simp only [mem_rowsOf]
  unfold lineItem
  split
  · rfl
  · rfl

theorem setAllMetadata_line (hwidth : 0 < lineWidth) (items : List (QHexMetadataAbsoluteItem γ))
    (metadata : Nat → List (QHexMetadataItem γ)) :
    ∃ metadata', setAllMetadata lineWidth metadata items = some metadata' ∧
      ∀ line, metadata' line =
        metadata line ++ items.flatMap fun mai => (lineItem lineWidth mai line).toList := by
  induction items generalizing metadata with
  | nil => exact ⟨metadata, rfl, fun line => by simp⟩
  | cons mai items ih =>
    obtain ⟨first, hfirst, hline⟩ := setAbsoluteMetadata_line hwidth metadata mai
    obtain ⟨all, hall, hlines⟩ := ih first
    refine ⟨all, ?_, fun line => ?_⟩
    · rw [setAllMetadata, hfirst, Option.bind_some, hall]
    · rw [hlines, hline, List.flatMap_cons, List.append_assoc]

/-! ## Any calls -/

/-- The items of each line are those of the ranges that were not cleared from it. -/
structure Follows (m : QHexMetadata γ) (s : Marks γ) : Prop where
  lineWidth : m.lineWidth = s.lineWidth
  positive : 0 < m.lineWidth
  absolute : m.absoluteMetadata = s.ranges.map Range.item
  metadata : ∀ line, m.metadata line =
    (s.ranges.filter fun r => line ∉ r.cleared).flatMap fun r =>
      (lineItem m.lineWidth r.item line).toList

variable {m : QHexMetadata γ} {s : Marks γ}

theorem mark_follows (h : Follows m s) (begin_ end_ : Nat) (mark : Mark γ) :
    ∃ m', m.mark begin_ end_ mark = some m' ∧
      Follows m' (s.mark begin_ end_ mark) := by
  obtain ⟨metadata, hset, hline⟩ :=
    setAbsoluteMetadata_line h.positive m.metadata ⟨begin_, end_, mark⟩
  refine ⟨{ m with
    metadata := metadata, absoluteMetadata := m.absoluteMetadata ++ [⟨begin_, end_, mark⟩] },
    ?_, h.lineWidth, h.positive, ?_, fun line => ?_⟩
  · unfold QHexMetadata.mark
    rw [hset, Option.map_some]
  · unfold Marks.mark
    rw [List.map_append, ← h.absolute]
    rfl
  · unfold Marks.mark
    dsimp only
    rw [hline, h.metadata, List.filter_append, List.flatMap_append]
    simp

theorem setLineWidth_follows (h : Follows m s) {width : Nat} (hwidth : 0 < width) :
    ∃ m', m.setLineWidth width = some m' ∧ Follows m' (s.setLineWidth width) := by
  unfold QHexMetadata.setLineWidth Marks.setLineWidth
  rw [← h.lineWidth]
  by_cases hsame : width ≠ m.lineWidth
  · obtain ⟨metadata, hset, hline⟩ := setAllMetadata_line hwidth m.absoluteMetadata fun _ => []
    rw [if_pos hsame, if_pos hsame, hset, Option.map_some]
    refine ⟨_, rfl, rfl, hwidth, ?_, fun line => ?_⟩
    · rw [List.map_map, h.absolute]
      rfl
    · dsimp only
      rw [hline, h.absolute, List.nil_append, List.flatMap_map]
      have hall : (s.ranges.map fun r => { r with cleared := [] }).filter
          (fun r => line ∉ r.cleared) = s.ranges.map fun r => { r with cleared := [] } := by
        rw [List.filter_eq_self]
        intro r hr
        obtain ⟨r', _, rfl⟩ := List.mem_map.mp hr
        simp
      rw [hall, List.flatMap_map]
  · rw [if_neg hsame, if_neg hsame]
    exact ⟨m, rfl, h⟩

theorem clearLine_follows (h : Follows m s) (line : Nat) :
    Follows { m with metadata := fun x => if x = line then [] else m.metadata x }
      (s.clearLine line) := by
  refine ⟨h.lineWidth, h.positive, ?_, fun x => ?_⟩
  · unfold Marks.clearLine
    rw [List.map_map, h.absolute]
    rfl
  · unfold Marks.clearLine
    rw [List.filter_map, List.flatMap_map]
    dsimp only
    split
    · rename_i hx
      have hnone : s.ranges.filter
          ((fun r => decide (x ∉ r.cleared)) ∘ fun r => { r with cleared := line :: r.cleared }) =
          [] := by
        rw [List.filter_eq_nil_iff]
        intro r _
        simp [hx]
      rw [hnone, List.flatMap_nil]
    · rename_i hx
      rw [h.metadata]
      congr 1
      apply List.filter_congr
      intro r _
      simp [hx]

theorem call_follows (h : Follows m s) (c : MetadataCall γ) (hc : c.Positive) :
    ∃ m', m.call c = some m' ∧ Follows m' (s.call c) := by
  cases c with
  | mark begin_ end_ mark => exact mark_follows h begin_ end_ mark
  | markLine line start length mark =>
    show ∃ m', _ ∧ Follows m' (s.mark (line * s.lineWidth + start)
      (line * s.lineWidth + start + length) mark)
    rw [← h.lineWidth]
    exact mark_follows h (line * m.lineWidth + start) (line * m.lineWidth + start + length) mark
  | clearLine line => exact ⟨_, rfl, clearLine_follows h line⟩
  | clear => exact ⟨_, rfl, h.lineWidth, h.positive, rfl, fun _ => rfl⟩
  | setLineWidth width => exact setLineWidth_follows h hc

theorem run_follows {calls : List (MetadataCall γ)} (h : Follows m s)
    (hcalls : ∀ c ∈ calls, c.Positive) :
    ∃ m', run QHexMetadata.call m calls = some m' ∧ Follows m' (calls.foldl Marks.call s) := by
  induction calls generalizing m s with
  | nil => exact ⟨m, rfl, h⟩
  | cons c calls ih =>
    obtain ⟨m1, hcall, h1⟩ := call_follows h c (hcalls c List.mem_cons_self)
    obtain ⟨m', hrun, h'⟩ := ih h1 fun c' hc' => hcalls c' (List.mem_cons_of_mem c hc')
    exact ⟨m', by rw [run_cons hcall, hrun], h'⟩

/-! ## The comment -/

theorem comments_eq (m : QHexMetadata γ) (line column : Nat) :
    m.comments line column =
      joinComments (((m.metadata line).filter fun mi => Covers mi column).map (·.mark)) := by
  unfold QHexMetadata.comments joinComments
  generalize m.metadata line = items
  generalize "" = s
  induction items generalizing s with
  | nil => rfl
  | cons mi items ih =>
    rw [List.foldl_cons, ih]
    by_cases hcovers : mi.start ≤ column ∧ column < mi.start + mi.length
    · have hkept : decide (Covers mi column) = true := decide_eq_true hcovers
      rw [if_neg (not_not_intro hcovers), List.filter_cons, if_pos hkept, List.map_cons,
        List.foldl_cons]
    · have hleft : ¬ decide (Covers mi column) = true := fun h => hcovers (of_decide_eq_true h)
      rw [if_pos hcovers, List.filter_cons, if_neg hleft]

theorem covered_marks (h : Follows m s) (hcolumn : column < m.lineWidth) :
    ((m.metadata line).filter fun mi => Covers mi column).map (·.mark) =
      s.marksAt (line * m.lineWidth + column) := by
  have hrow : (line * m.lineWidth + column) / s.lineWidth = line := by
    rw [← h.lineWidth, Nat.mul_comm, Nat.mul_add_div h.positive, Nat.div_eq_of_lt hcolumn,
      Nat.add_zero]
  unfold Marks.marksAt
  rw [h.metadata, hrow]
  generalize s.ranges = ranges
  induction ranges with
  | nil => rfl
  | cons r ranges ih =>
    have hone := @lineItem_covers γ m.lineWidth line column r.item hcolumn
    by_cases hcleared : line ∈ r.cleared
    · rw [List.filter_cons_of_neg (by simpa using hcleared),
        List.filter_cons_of_neg (by simp [hcleared]), ih]
    · rw [List.filter_cons_of_pos (by simpa using hcleared), List.flatMap_cons,
        List.filter_append, List.map_append, hone, ih]
      by_cases hin : r.item.begin_ ≤ line * m.lineWidth + column ∧
          line * m.lineWidth + column < r.item.end_
      · rw [if_pos hin, List.filter_cons_of_pos (by simp [hin, hcleared]), List.map_cons]
        rfl
      · rw [if_neg hin, List.filter_cons_of_neg (by simp; omega)]
        rfl

/-- From no metadata on, with any widths but 0. -/
theorem comments_follow (lineWidth : Fin (2 ^ 8)) (calls : List (MetadataCall γ))
    (hwidth : 0 < lineWidth.val) (hcalls : ∀ c ∈ calls, c.Positive) :
    ∃ m, run QHexMetadata.call (.new lineWidth) calls = some m ∧
      ∀ line column, column < m.lineWidth →
        m.comments line column =
          joinComments ((calls.foldl Marks.call (.new lineWidth)).marksAt
            (line * m.lineWidth + column)) := by
  have hnew : Follows (QHexMetadata.new lineWidth : QHexMetadata γ) (.new lineWidth) :=
    ⟨rfl, hwidth, rfl, fun _ => rfl⟩
  obtain ⟨m, hrun, h⟩ := run_follows hnew hcalls
  refine ⟨m, hrun, fun line column hcolumn => ?_⟩
  rw [comments_eq, covered_marks h hcolumn]

/-- A range over the end of the first line, on lines of 16 bytes and then of 8. -/
theorem comments_follow_two :
    ∃ m : QHexMetadata Unit,
      run QHexMetadata.call (.new 16) [.mark 14 18 ⟨(), (), "option"⟩, .setLineWidth 8] = some m ∧
        ∀ line column, column < m.lineWidth →
          m.comments line column =
            joinComments (([.mark 14 18 ⟨(), (), "option"⟩, .setLineWidth 8].foldl Marks.call
              (.new 16)).marksAt (line * m.lineWidth + column)) :=
  comments_follow 16 [.mark 14 18 ⟨(), (), "option"⟩, .setLineWidth 8] (by decide) fun c hc => by
    rcases List.mem_cons.mp hc with rfl | hc
    · trivial
    · rw [List.mem_singleton.mp hc]
      show 0 < 8
      decide

end HexView
end Xsky
