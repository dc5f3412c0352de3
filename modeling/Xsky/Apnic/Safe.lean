import Xsky.Kit.Runs
import Xsky.Apnic.Sync

/-!
# Apnic.Safe

What the line loop of `apnic::sync` does with lines that are no records.

A line with the marker is taken for a record: there must be a `|` behind the address and an address
of the family in front of it. `safe_iff`: over any chunks, the loop forms no position outside a
line, lets no exception escape and marks nothing for an invalid line if and only if every line it
takes that has the marker goes on like a record.
-/

namespace Xsky
namespace Apnic

open Kit

/-! ## One line -/

/-- Where in the line the loop goes: `line[pos]`, the start of the address, and what `find` returned
for its end, which is nowhere if it found nothing. -/
def formed (line : Text) : List (Option Nat) :=
  match Text.find marker line with
  | none => []
  | some p => [some (p + 12), some (p + 14), Text.findFrom '|' line (p + 14)]

/-- What is given to `from_string`. -/
def field (line : Text) (p : Nat) : Text :=
  Text.slice line (p + 14) ((Text.findFrom '|' line (p + 14)).getD line.length)

def Address.isV4 : Address → Bool
  | .v4 _ => true
  | .v6 _ => false

variable (fromString : Text → Option Address)

/-- The digit names a family, and the field is an address of it. -/
def HoldsAddress (line : Text) : Prop :=
  ∃ p a, Text.find marker line = some p ∧ fromString (field line p) = some a ∧
    getElem? line (p + 12) = some (if a.isV4 then '4' else '6')

/-- The turn of the loop on this line. -/
structure LineSafe (b : Bitmaps) (line : Text) : Prop where
  inside : ∀ pos ∈ formed line, ∃ i, pos = some i ∧ i ≤ line.length
  returns : ∃ b', syncLine fromString b line = some b'
  unchanged : ¬ HoldsAddress fromString line →
    ∀ b', syncLine fromString b line = some b' → b' = b

/-- Behind the first marker there is a `|` from the second character on, and in front of that an
address of the family, if the digit names one. -/
def LineOk (line : Text) : Prop :=
  ∀ p, Text.find marker line = some p → '|' ∈ line.drop (p + 14) ∧
    (getElem? line (p + 12) = some '4' →
      ∃ a, fromString (field line p) = some a ∧ a.isV4 = true) ∧
    (getElem? line (p + 12) = some '6' →
      ∃ a, fromString (field line p) = some a ∧ a.isV4 = false)

variable {fromString}

/-- The turn on a line with the marker and a `|` in place. -/
theorem syncLine_field {b : Bitmaps} {line : Text} {p : Nat} (hp : Text.find marker line = some p)
    (hbar : '|' ∈ line.drop (p + 14)) :
    syncLine fromString b line =
      match getElem? line (p + 12) with
      | some '4' =>
        match fromString (field line p) with
        | some (.v4 a) =>
          some { b with ipv4 := b.ipv4.write ((a &&& 0xFFFFFF#32) >>> 8).toNat true }
        | _ => none
      | some '6' =>
        match fromString (field line p) with
        | some (.v6 bytes) => some { b with ipv6 := b.ipv6.write (bytes.read32 0).toNat true }
        | _ => none
      | _ => some b := by
  obtain ⟨j, hj, -, -⟩ := Text.findFrom_isSome hbar
  unfold syncLine field
  simp only [hp, hj]
  rfl

theorem lineSafe_iff (b : Bitmaps) (line : Text) :
    LineSafe fromString b line ↔ LineOk fromString line := by
  constructor
  · intro h p hp
    have hend : '|' ∈ line.drop (p + 14) := by
      refine Decidable.byContradiction fun hno => ?_
      obtain ⟨i, hi, -⟩ := h.inside (Text.findFrom '|' line (p + 14)) (by simp [formed, hp])
      rw [Text.findFrom_eq_none hno] at hi
      cases hi
    obtain ⟨b', hb'⟩ := h.returns
    rw [syncLine_field hp hend] at hb'
    refine ⟨hend, fun h4 => ?_, fun h6 => ?_⟩
    · simp only [h4] at hb'
      split at hb'
      · rename_i a ha
        exact ⟨_, ha, rfl⟩
      · cases hb'
    · simp only [h6] at hb'
      split at hb'
      · rename_i bytes ha
        exact ⟨_, ha, rfl⟩
      · cases hb'
  · intro h
    cases hfind : Text.find marker line with
    | none =>
      have hsame : syncLine fromString b line = some b := by
        unfold syncLine
        rw [hfind]
      refine ⟨fun pos hpos => ?_, ⟨b, hsame⟩, fun _ b' hb' => ?_⟩
      · unfold formed at hpos
        rw [hfind] at hpos
        cases hpos
      · rw [hsame] at hb'
        exact (Option.some.inj hb').symm
    | some p =>
      obtain ⟨hbar, h4, h6⟩ := h p hfind
      obtain ⟨j, hj, hlow, hhigh⟩ := Text.findFrom_isSome hbar
      have hline := @syncLine_field fromString b line p hfind hbar
      have hinside : ∀ pos ∈ formed line, ∃ i, pos = some i ∧ i ≤ line.length := by
        intro pos hpos
        simp only [formed, hfind, hj, List.mem_cons, List.not_mem_nil, or_false] at hpos
        rcases hpos with rfl | rfl | rfl
        · exact ⟨_, rfl, by omega⟩
        · exact ⟨_, rfl, by omega⟩
        · exact ⟨_, rfl, by omega⟩
      by_cases hd4 : getElem? line (p + 12) = some '4'
      · obtain ⟨a, ha, hfam⟩ := h4 hd4
        cases a with
        | v6 bytes => cases hfam
        | v4 a =>
          simp only [hd4, ha] at hline
          refine ⟨hinside, ⟨_, hline⟩, fun hno => absurd ?_ hno⟩
          exact ⟨p, .v4 a, hfind, ha, hd4⟩
      · by_cases hd6 : getElem? line (p + 12) = some '6'
        · obtain ⟨a, ha, hfam⟩ := h6 hd6
          cases a with
          | v4 a => cases hfam
          | v6 bytes =>
            simp only [hd6, ha] at hline
            refine ⟨hinside, ⟨_, hline⟩, fun hno => absurd ?_ hno⟩
            exact ⟨p, .v6 bytes, hfind, ha, hd6⟩
        · -- another digit, or none: the address is not looked at
          have hsame : syncLine fromString b line = some b := by
            rw [hline]
            split
            · rename_i h4'
              exact absurd h4' hd4
            · rename_i h6'
              exact absurd h6' hd6
            · rfl
          refine ⟨hinside, ⟨b, hsame⟩, fun _ b' hb' => ?_⟩
          rw [hsame] at hb'
          exact (Option.some.inj hb').symm

/-! ## The loops -/

/-- The lines the inner loop takes from the buffer. -/
def taken : Nat → Text → List Text
  | 0, _ => []
  | n + 1, s =>
    let (line, rest) := Text.getline s
    if line = [] then [] else line :: taken n rest

/-- The inner loop is a run over these lines. -/
theorem drain_taken (n : Nat) (b : Bitmaps) (s : Text) :
    (drain fromString n b s).map Prod.fst = run (syncLine fromString) b (taken n s) := by
  induction n generalizing b s with
  | zero => rfl
  | succ n ih =>
    unfold drain taken
    simp only
    split
    · rfl
    · simp only [run]
      cases syncLine fromString b (Text.getline s).1 with
      | none => rfl
      | some b' => exact ih b' _

variable (fromString)

/-- The lines taken once these bytes have come. -/
def linesOf (s : Sync) (bytes : Text) : List Text :=
  taken ((s.buf ++ bytes).length + 1) (s.buf ++ bytes)

/-- Each line of the inner loop is safe, with the bitmaps as the lines before it left them. -/
def ReadSafe (s : Sync) (bytes : Text) : Prop :=
  Along (syncLine fromString) (LineSafe fromString) s.bitmaps (linesOf s bytes)

def LinesOk (s : Sync) (bytes : Text) : Prop := ∀ line ∈ linesOf s bytes, LineOk fromString line

variable {fromString}

theorem readSafe_iff (s : Sync) (bytes : Text) :
    ReadSafe fromString s bytes ↔ LinesOk fromString s bytes := by
  unfold ReadSafe LinesOk
  generalize s.bitmaps = b
  induction linesOf s bytes generalizing b with
  | nil => exact iff_of_true trivial fun line hline => by cases hline
  | cons line lines ih =>
    rw [List.forall_mem_cons]
    constructor
    · intro h
      obtain ⟨b', hb'⟩ := h.1.returns
      exact ⟨(lineSafe_iff b line).mp h.1, (ih b').mp (h.2 b' hb')⟩
    · intro h
      exact ⟨(lineSafe_iff b line).mpr h.1, fun b' _ => (ih b').mpr h.2⟩

/-- A safe turn of the outer loop does not end the thread. -/
theorem syncRead_of_safe {s : Sync} {bytes : Text} (h : ReadSafe fromString s bytes) :
    ∃ s', syncRead fromString s bytes = some s' := by
  have hrun := always_of_along (J := fun _ => True)
    (fun b line _ hline => by
      obtain ⟨b', hb'⟩ := hline.returns
      exact ⟨b', hb', trivial⟩) trivial h
  obtain ⟨b', hb', -⟩ := hrun.run
  unfold linesOf at hb'
  rw [← drain_taken, Option.map_eq_some_iff] at hb'
  obtain ⟨⟨b1, rest⟩, hdrain, -⟩ := hb'
  unfold syncRead
  simp only [hdrain, Option.map_some]
  exact ⟨_, rfl⟩

/-- Over all chunks the lines are safe, and the thread goes on, exactly when every line that has the
marker goes on like a record. -/
theorem safe_iff (s : Sync) (chunks : List Text) :
    (Along (syncRead fromString) (ReadSafe fromString) s chunks ∧
        ∃ s', run (syncRead fromString) s chunks = some s') ↔
      Along (syncRead fromString) (LinesOk fromString) s chunks := by
  have hsame : Along (syncRead fromString) (ReadSafe fromString) s chunks ↔
      Along (syncRead fromString) (LinesOk fromString) s chunks :=
    along_congr (fun s bytes _ _ => ⟨readSafe_iff s bytes, fun _ _ => trivial⟩)
      (show (fun _ : Sync => True) s from trivial)
      (along_of_forall (C := fun _ => True) fun _ _ => trivial)
  rw [← hsame]
  refine and_iff_left_of_imp fun h => ?_
  have hrun := always_of_along (J := fun _ => True)
    (fun s bytes _ hsafe => by
      obtain ⟨s', hs'⟩ := syncRead_of_safe hsafe
      exact ⟨s', hs', trivial⟩) trivial h
  obtain ⟨s', hs', -⟩ := hrun.run
  exact ⟨s', hs'⟩

/-- A `from_string` that knows one address of each family. -/
def sampleAddress (ip : Text) : Option Address :=
  if ip = "1.0.1.0".toList then some (.v4 0x01000100#32)
  else if ip = "2001:250::".toList then some (.v6 fun i => [0x20, 0x01, 0x02, 0x50].getD i 0)
  else none

/-- The closing `|` is missing, and the find comes back with nothing. -/
theorem cut_line_unsafe :
    ¬ (Along (syncRead sampleAddress) (ReadSafe sampleAddress) ⟨.zero, []⟩
        ["apnic|CN|ipv4|1.0.1".toList] ∧
      ∃ s', run (syncRead sampleAddress) ⟨.zero, []⟩ ["apnic|CN|ipv4|1.0.1".toList] = some s') := by
  intro h
  obtain ⟨s', hs'⟩ := h.2
  have hnone : run (syncRead sampleAddress) ⟨.zero, []⟩ ["apnic|CN|ipv4|1.0.1".toList] = none := by
    rfl
  rw [hnone] at hs'
  cases hs'

end Apnic
end Xsky
