import Xsky.Kit.Seek
import Xsky.HexView.Chars

/-!
# HexView.Search

`QHexDocument::searchForward`, again and again for the same bytes.

What is found is selected, but no further than to the end of its line, and the next search is from
where the selection ends: the last of its bytes on that line. So what overlaps it is passed over,
and a single byte, or bytes that begin in the last column, are found for ever.

`search_goes_on`: the rest is found in its order.
-/

namespace Xsky
namespace HexView

open Kit

def matchesAt (bytes needle : List Byte) (i : Nat) : Bool := needle.isPrefixOf (bytes.drop i)

/-- Below 0 it is counted from the end. One that is in front of the bytes is 0 for a single byte; for
more of them nothing is found. -/
def searchFrom (bytes needle : List Byte) (start : Int) : Option Nat :=
  let start := if start < 0 then start + bytes.length else start
  if start < 0 ∧ needle.length ≠ 1 then none else some start.toNat

/-- `QByteArray::indexOf`, for an array that is not empty, from a `static_cast<int>`. -/
def indexOf (bytes needle : List Byte) (start : Int) : Option Nat :=
  (searchFrom bytes needle (start.bmod (2 ^ 32))).bind fun start =>
    let i := seek (matchesAt bytes needle) (bytes.length - start) start
    if matchesAt bytes needle i then some i else none

namespace View

/-- `QHexCursor::moveTo( qint64 )` and `QHexCursor::select( int )` -/
def selectOffset (v : View) (offset length : Nat) : View :=
  let line := BitVec.ofNat 64 (offset / hexLineWidth)
  let column : Int := (offset % hexLineWidth : Nat)
  { v with
    cursor := (v.cursor.moveTo ⟨line, column, 1⟩).select
      ⟨line, min (hexLineWidth - 1) (column + length - 1), 1⟩ }

def searchForward (v : View) (needle : List Byte) : View × Option Nat :=
  let findPos := indexOf v.document.bytes needle v.cursor.position.offset
  match findPos with
  | some offset => (v.selectOffset offset needle.length, findPos)
  | none => (v, findPos)

end View

/-- The view after so many searches. -/
def searched (v : View) (needle : List Byte) : Nat → View
  | 0 => v
  | n + 1 => ((searched v needle n).searchForward needle).1

/-- What the search after these finds. -/
def found (v : View) (needle : List Byte) (n : Nat) : Option Nat :=
  ((searched v needle n).searchForward needle).2

/-- The search does not leave a place where bytes of this length were found. -/
def Stays (length place : Nat) : Prop := length = 1 ∨ place % hexLineWidth = hexLineWidth - 1

instance (length place : Nat) : Decidable (Stays length place) :=
  inferInstanceAs (Decidable (_ ∨ _))

/-- What a search may find behind one that has found `before`. -/
def FoundNext (bytes needle : List Byte) : Option Nat → Option Nat → Prop
  | none, next => next = none
  | some place, none => ¬ Stays needle.length place ∧
      ∀ i, place < i → matchesAt bytes needle i → i < place + needle.length
  | some place, some next =>
    if Stays needle.length place then next = place
    else place < next ∧ matchesAt bytes needle next ∧
      ∀ i, place < i → i < next → matchesAt bytes needle i → i < place + needle.length

/-! ## One search -/

variable {v : View} {bytes needle : List Byte} {start place : Nat}

theorem matchesAt_lt (h : needle ≠ []) (hmatch : matchesAt bytes needle place) :
    place < bytes.length := by
  refine Nat.lt_of_not_le fun hle => h ?_
  unfold matchesAt at hmatch
  rw [List.drop_of_length_le hle] at hmatch
  cases needle with
  | nil => rfl
  | cons b needle => cases hmatch

theorem indexOf_match {start : Int} (h : indexOf bytes needle start = some place) :
    matchesAt bytes needle place := by
  unfold indexOf at h
  obtain ⟨start', -, h⟩ := Option.bind_eq_some_iff.mp h
  dsimp only at h
  split at h
  · rename_i hmatch
    cases h
    exact hmatch
  · cases h

/-- From a place an `int` has. -/
theorem indexOf_natCast (bytes needle : List Byte) {start : Nat} (hstart : start < 2 ^ 31) :
    indexOf bytes needle start =
      let i := seek (matchesAt bytes needle) (bytes.length - start) start
      if matchesAt bytes needle i then some i else none := by
  have hcast : (start : Int).bmod (2 ^ 32) = start := Int.bmod_eq_of_le (by omega) (by omega)
  have hnot : ¬ (start : Int) < 0 := Int.not_lt.mpr (Int.natCast_nonneg start)
  unfold indexOf searchFrom
  rw [hcast, if_neg hnot, if_neg fun hin => hnot hin.1, Int.toNat_natCast, Option.bind_some]

theorem indexOf_some (hstart : start < 2 ^ 31) (h : indexOf bytes needle start = some place) :
    start ≤ place ∧ ∀ i, start ≤ i → i < place → ¬ matchesAt bytes needle i := by
  rw [indexOf_natCast bytes needle hstart] at h
  dsimp only at h
  split at h
  · cases h
    refine ⟨le_seek _ _ _, fun i hi hlt => ?_⟩
    rw [seek_first hi hlt]
    exact Bool.false_ne_true
  · cases h

theorem indexOf_none (hneedle : needle ≠ []) (hstart : start < 2 ^ 31) (h : indexOf bytes needle start = none) {i : Nat}
    (hi : start ≤ i) : ¬ matchesAt bytes needle i := by
  intro hmatch
  have hlt := matchesAt_lt hneedle hmatch
  rw [indexOf_natCast bytes needle hstart] at h
  dsimp only at h
  split at h
  · cases h
  · rename_i hnot
    by_cases hstop : seek (matchesAt bytes needle) (bytes.length - start) start ≤ i
    · exact hnot (seek_holds (by omega))
    · have hfirst := seek_first hi (Nat.lt_of_not_le hstop)
      rw [hmatch] at hfirst
      cases hfirst

/-- Where bytes begin, they are found. -/
theorem indexOf_here (h : needle ≠ []) (hbytes : bytes.length ≤ 2 ^ 31)
    (hmatch : matchesAt bytes needle place) :
    indexOf bytes needle place = some place := by
  have hlt := matchesAt_lt h hmatch
  have hseek : seek (matchesAt bytes needle) (bytes.length - place) place = place :=
    seek_eq (Nat.le_refl place) (by omega) hmatch fun x hx hlt => absurd hlt (by omega)
  rw [indexOf_natCast bytes needle (by omega)]
  dsimp only
  rw [hseek, if_pos hmatch]

/-- Where the search goes on. -/
def resume (place length : Nat) : Nat :=
  place / hexLineWidth * hexLineWidth +
    min (hexLineWidth - 1) (place % hexLineWidth + length - 1)

theorem resume_of_stays {length : Nat} (hpos : 0 < length) (h : Stays length place) :
    resume place length = place := by
  unfold Stays hexLineWidth at h
  unfold resume hexLineWidth
  omega

theorem resume_of_not_stays {length : Nat} (hpos : 0 < length) (h : ¬ Stays length place) :
    place < resume place length ∧ resume place length < place + length := by
  unfold Stays hexLineWidth at h
  unfold resume hexLineWidth
  omega

theorem selectOffset_in (v : View) (h : place < v.document.length) {length : Nat}
    (hpos : 0 < length) :
    (v.selectOffset place length).cursor.position.In v.document := by
  have hexact := v.document.exact
  refine ⟨?_, ?_⟩
  · rw [BitVec.le_def, v.document.documentLastLine_toNat]
    show (BitVec.ofNat 64 (place / hexLineWidth)).toNat ≤ _
    rw [BitVec.toNat_ofNat]
    exact Nat.le_trans (Nat.mod_le _ _) (Nat.div_le_div_right (Nat.le_of_lt h))
  · show 0 ≤ min ((hexLineWidth : Int) - 1) (((place % hexLineWidth : Nat) : Int) + length - 1) ∧
      min ((hexLineWidth : Int) - 1) (((place % hexLineWidth : Nat) : Int) + length - 1) <
        hexLineWidth
    unfold hexLineWidth
    omega

theorem selectOffset_offset (v : View) (h : place < v.document.length) {length : Nat}
    (hpos : 0 < length) :
    (v.selectOffset place length).cursor.position.offset = (resume place length : Nat) := by
  have hexact := v.document.exact
  rw [(selectOffset_in v h hpos).offset_eq]
  show (((BitVec.ofNat 64 (place / hexLineWidth)).toNat : Int) * hexLineWidth +
    min ((hexLineWidth : Int) - 1) (((place % hexLineWidth : Nat) : Int) + length - 1)) = _
  rw [BitVec.toNat_ofNat]
  unfold resume
  unfold Document.length at h
  unfold hexLineWidth at *
  omega

theorem selectOffset_document (v : View) (offset length : Nat) :
    (v.selectOffset offset length).document = v.document := rfl

/-! ## Again and again -/

theorem searchForward_some (h : (v.searchForward needle).2 = some place) :
    indexOf v.document.bytes needle v.cursor.position.offset = some place ∧
      (v.searchForward needle).1 = v.selectOffset place needle.length := by
  unfold View.searchForward at h ⊢
  dsimp only at h ⊢
  split at h
  · rename_i offset hfound
    rw [hfound] at h ⊢
    cases h
    exact ⟨rfl, rfl⟩
  · rename_i hnone
    rw [hnone] at h
    cases h

theorem searchForward_none (h : (v.searchForward needle).2 = none) :
    indexOf v.document.bytes needle v.cursor.position.offset = none ∧
      (v.searchForward needle).1 = v := by
  unfold View.searchForward at h ⊢
  dsimp only at h ⊢
  split at h
  · rename_i offset hfound
    rw [hfound] at h
    cases h
  · rename_i hnone
    rw [hnone] at h ⊢
    exact ⟨rfl, rfl⟩

theorem searchForward_document (v : View) (needle : List Byte) :
    (v.searchForward needle).1.document = v.document := by
  unfold View.searchForward
  dsimp only
  split <;> rfl

theorem foundNext_step (hneedle : needle ≠ []) (v : View) :
    FoundNext v.document.bytes needle (v.searchForward needle).2
      ((v.searchForward needle).1.searchForward needle).2 := by
  have hpos : 0 < needle.length := List.length_pos_iff.mpr hneedle
  cases hfirst : (v.searchForward needle).2 with
  | none =>
    rw [(searchForward_none hfirst).2, hfirst]
    rfl
  | some place =>
    obtain ⟨hindex, hview⟩ := searchForward_some hfirst
    have hmatch := indexOf_match hindex
    have hinside := matchesAt_lt hneedle hmatch
    have hresume := selectOffset_offset v hinside hpos
    have hexact := v.document.exact
    have hbytes : v.document.bytes.length ≤ 2 ^ 31 := by omega
    have hstart : resume place needle.length < 2 ^ 31 := by
      unfold resume hexLineWidth
      omega
    rw [hview]
    cases hnext : ((v.selectOffset place needle.length).searchForward needle).2 with
    | none =>
      have hindex' := (searchForward_none hnext).1
      rw [selectOffset_document, hresume] at hindex'
      have hleaves : ¬ Stays needle.length place := by
        intro hstays
        rw [resume_of_stays hpos hstays, indexOf_here hneedle hbytes hmatch] at hindex'
        cases hindex'
      obtain ⟨_, hbefore⟩ := resume_of_not_stays hpos hleaves
      refine ⟨hleaves, fun i _ hi => ?_⟩
      refine Nat.lt_of_not_le fun hle => indexOf_none hneedle hstart hindex' ?_ hi
      omega
    | some next =>
      have hindex' := (searchForward_some hnext).1
      rw [selectOffset_document, hresume] at hindex'
      have hnextMatch := indexOf_match hindex'
      unfold FoundNext
      dsimp only
      by_cases hstays : Stays needle.length place
      · rw [resume_of_stays hpos hstays, indexOf_here hneedle hbytes hmatch] at hindex'
        cases hindex'
        rw [if_pos hstays]
      · obtain ⟨hafter, hbefore⟩ := resume_of_not_stays hpos hstays
        obtain ⟨hle, hfirst⟩ := indexOf_some hstart hindex'
        rw [if_neg hstays]
        refine ⟨by omega, hnextMatch, fun i _ hlt hi => ?_⟩
        refine Nat.lt_of_not_le fun hover => hfirst i ?_ hlt hi
        omega

/-- However often one searches, from any cursor. -/
theorem search_goes_on (v : View) (needle : List Byte) (hneedle : needle ≠ []) (n : Nat) :
    FoundNext v.document.bytes needle (found v needle n) (found v needle (n + 1)) := by
  have hdocument : (searched v needle n).document = v.document := by
    induction n with
    | zero => rfl
    | succ n ih =>
      rw [searched, searchForward_document, ih]
  rw [← hdocument]
  exact foundNext_step hneedle (searched v needle n)

def threeOnes : View := ⟨⟨[1, 1, 1], by decide⟩, .new, .hex, true⟩

/-- The first two bytes, and then the last two. -/
theorem search_goes_on_two :
    FoundNext threeOnes.document.bytes [1, 1] (found threeOnes [1, 1] 0)
      (found threeOnes [1, 1] (0 + 1)) :=
  search_goes_on threeOnes [1, 1] (by decide) 0

end HexView
end Xsky
