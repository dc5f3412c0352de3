import Xsky.Client.Controller
import Xsky.Kit.Markers

/-!
# Client.Entries

The rows of `client/DomainListDialog.cpp` and `client/DeviceListDialog.cpp`, and the entries of the
two lists they are stored as.

An entry is built by `QString( "%1|%2|%3" ).arg( .. ).arg( .. ).arg( .. )` and taken apart by
`split( "|" )`. `QChar::digitValue`, the numbers `QLocale` writes and `QString::toInt` are
parameters; of the last two only what they make of `0`, `1` and `2` is used. `rows_return_iff`: the
rows come back from their entries if and only if no text in them has a `|`, no name has a marker
numbered below 3, and a marker 3 of a name is written like the description beside it; or the index
and the description, put into a name, spell it again.
-/

namespace Xsky
namespace Client

open Kit Text

/-- A row of the `treeWidget`: the texts in the columns 0 and 2, and the current index of the combo
box in column 1, with -1 for none. -/
structure Row where
  name : Text
  index : Int
  description : Text
deriving DecidableEq

/-- What `arg( int )` puts in. -/
def decimal : Int → Text
  | .ofNat n => Nat.toDigits 10 n
  | .negSucc n => '-' :: Nat.toDigits 10 (n + 1)

def format : Text := "%1|%2|%3".toList

section

variable (v : DigitValue) (localized : Int → Text)

/-- Only `arg( int )` has another text for the markers with an `L`. -/
def entryText (row : Row) : Text :=
  arg v (arg v (arg v format row.name row.name) (decimal row.index) (localized row.index))
    row.description row.description

def entry (row : Row) : String := String.ofList (entryText v localized row)

/-- The rows whose names no later `arg` changes. -/
structure Row.Plain (row : Row) : Prop where
  name : '|' ∉ row.name
  description : '|' ∉ row.description
  least : ∀ n ∈ marks v row.name, 3 ≤ n
  third : ∀ t ∈ spellings v 3 row.name, t = row.description

/-- The rows whose names get the index and the description put in, and are the same again. -/
structure Row.Restored (row : Row) : Prop where
  name : '|' ∉ row.name
  description : '|' ∉ row.description
  least : ∀ n ∈ marks v row.name, 2 ≤ n
  second : 2 ∈ marks v row.name
  third : ∀ n ∈ marks v (subst v 2 (decimal row.index) (localized row.index) row.name), 3 ≤ n
  text : subst v 3 row.description row.description
    (subst v 2 (decimal row.index) (localized row.index) row.name) = row.name

end

/-- `QComboBox::setCurrentIndex`, on the items of `ComboItemList`. -/
def setCurrentIndex (index : Int) : Int := if 0 ≤ index ∧ index < 3 then index else -1

/-- `[a-fA-F0-9]{2}(:[a-fA-F0-9]{2}){5}` -/
def exactMatch (s : Text) : Bool :=
  let parts := s.splitOn ':'
  parts.length = 6 && parts.all fun part =>
    part.length = 2 && part.all fun c =>
      c.isDigit || ('a' ≤ c && c ≤ 'f') || ('A' ≤ c && c ≤ 'F')

section

variable (toJson : JsonObject → List Byte) (v : DigitValue) (localized : Int → Text)
  (toInt : Text → Int)

/-- The row for one entry; `none` for an index out of the parts. -/
def rowOf (it : String) : Option Row := do
  let list := it.toList.splitOn '|'
  let name ← list[0]?
  let index ← list[1]?
  let description ← list[2]?
  return ⟨name, setCurrentIndex (toInt index), description⟩

namespace DomainListDialog

/-- The rows the constructor fills in. -/
def new (c : Controller) : Option (List Row) := c.p.domains.mapM (rowOf toInt)

def onPushButtonAcceptClicked (c : Controller) (rows : List Row) : Controller :=
  setDomainList toJson c (rows.map (entry v localized))

end DomainListDialog

namespace DeviceListDialog

/-- What is left in column 0 of a text put there. -/
def onTreeWidgetItemChanged (name : Text) : Text :=
  if name ≠ [] ∧ ¬ exactMatch name then "00:00:00:00:00:00".toList else name

def rowOf (it : String) : Option Row :=
  (Client.rowOf toInt it).map fun row => { row with name := onTreeWidgetItemChanged row.name }

def new (c : Controller) : Option (List Row) := c.p.devices.mapM (rowOf toInt)

def onPushButtonAcceptClicked (c : Controller) (rows : List Row) : Controller :=
  setDeviceList c ((rows.filter (·.name ≠ [])).map (entry v localized))

end DeviceListDialog

/-! ## One entry -/

def fields (a b c : Text) : Text := a ++ '|' :: (b ++ '|' :: c)

variable {v} {localized}

theorem dv_bar : v '|' = none := dv_of_not_digit (by decide) (by decide)

theorem pieces_bar (s t : Text) :
    pieces v (s ++ '|' :: t) = pieces v s ++ .lit '|' :: pieces v t := by
  have hbar : (Piece.lit '|').Before v t := fun h => absurd h (by decide)
  have hapart : Apart v ('|' :: t) := by
    intro c hc
    obtain rfl := Option.some.inj hc
    exact ⟨by decide, dv_bar⟩
  rw [pieces_append hapart]
  exact congrArg _ (pieces_cons hbar)

theorem marks_fields (a b c : Text) :
    marks v (fields a b c) = marks v a ++ (marks v b ++ marks v c) := by
  unfold marks fields
  rw [pieces_bar, pieces_bar, List.filterMap_append, List.filterMap_cons_none rfl,
    List.filterMap_append, List.filterMap_cons_none rfl]

theorem subst_fields (n : Nat) (r l a b c : Text) :
    subst v n r l (fields a b c) =
      fields (subst v n r l a) (subst v n r l b) (subst v n r l c) := by
  unfold subst fields
  rw [pieces_bar, pieces_bar]
  simp [Piece.number, Piece.text]

theorem splitOn_fields {a b c : Text} (ha : '|' ∉ a) (hb : '|' ∉ b) (hc : '|' ∉ c) :
    (fields a b c).splitOn '|' = [a, b, c] := by
  unfold fields
  rw [List.splitOn_append_cons_self_of_not_mem ha, List.splitOn_append_cons_self_of_not_mem hb,
    List.splitOn_eq_singleton hc]

/-- One replacement, in fields the last of which has a marker. -/
theorem arg_fields {a b c : Text} {n : Nat} (hc : marks v c = [n]) (r l : Text) :
    ∃ k, (k ∈ marks v a ∨ k ∈ marks v b ∨ k = n) ∧
      (∀ i ∈ marks v a, k ≤ i) ∧ (∀ i ∈ marks v b, k ≤ i) ∧ k ≤ n ∧
      arg v (fields a b c) r l =
        fields (subst v k r l a) (subst v k r l b) (subst v k r l c) := by
  have hmarks := marks_fields (v := v) a b c
  cases hmin : (marks v (fields a b c)).min? with
  | none =>
    rw [List.min?_eq_none_iff, hmarks, hc] at hmin
    simp at hmin
  | some k =>
    obtain ⟨hk, hle⟩ := List.min?_eq_some_iff.mp hmin
    have harg := arg_of_le hk hle r l
    rw [hmarks, hc] at hk hle
    simp only [List.mem_append, List.mem_singleton] at hk hle
    exact ⟨k, hk, fun i hi => hle i (.inl hi), fun i hi => hle i (.inr (.inl hi)),
      hle n (.inr (.inr rfl)), harg.trans (subst_fields k r l a b c)⟩

theorem decimal_eq {index : Int} (h : 0 ≤ index ∧ index < 3) :
    ∃ i : Nat, i < 3 ∧ index = i ∧ decimal index = [digit i] := by
  have hall : ∀ i < 3, Nat.toDigits 10 i = [digit i] := by decide
  obtain ⟨i, rfl⟩ := Int.eq_ofNat_of_zero_le h.1
  have hi : i < 3 := by omega
  exact ⟨i, hi, rfl, hall i hi⟩

/-- The name with the index put in for the markers of a number. -/
def named (v : DigitValue) (localized : Int → Text) (row : Row) (k : Nat) : Text :=
  subst v k (decimal row.index) (localized row.index) row.name

/-- The numbers of the markers the index and then the description are put in for, and the fields
this makes. -/
structure Filled (v : DigitValue) (localized : Int → Text) (row : Row) (k m : Nat) : Prop where
  index_le : k ≤ 2
  index_least : ∀ i ∈ marks v row.name, k ≤ i
  index_marks : k ∈ marks v row.name ∨ k = 2
  description_least : ∀ i ∈ marks v (named v localized row k), m ≤ i
  description_marks : k < 2 ∧ m ≤ 2 ∨
    k = 2 ∧ m ≤ 3 ∧ (m ∈ marks v (named v localized row k) ∨ m = 3)
  text : entryText v localized row =
    fields (subst v m row.description row.description (named v localized row k))
      (subst v m row.description row.description
        (subst v k (decimal row.index) (localized row.index) (marker 2)))
      (subst v m row.description row.description (marker 3))

theorem marks_markers : marks v (marker 1) = [1] ∧ marks v (marker 2) = [2] ∧
    marks v (marker 3) = [3] :=
  ⟨marks_marker (by omega), marks_marker (by omega), marks_marker (by omega)⟩

theorem subst_marker_of_ne {k n : Nat} (hn : marks v (marker n) = [n]) (h : k ≠ n)
    (a l : Text) : subst v k a l (marker n) = marker n := by
  apply subst_of_not_mem
  rw [hn, List.mem_singleton]
  exact h

/-- The name goes in for `%1`. -/
theorem arg_format (name : Text) :
    arg v format name name = fields name (marker 2) (marker 3) := by
  obtain ⟨h1, h2, h3⟩ := marks_markers (v := v)
  have hformat : format = fields (marker 1) (marker 2) (marker 3) := by decide
  obtain ⟨k, hk, hk1, -, -, harg⟩ := arg_fields (a := marker 1) (b := marker 2) h3 name name
  rw [h1, h2] at hk
  rw [h1, List.forall_mem_singleton] at hk1
  simp only [List.mem_singleton] at hk
  obtain rfl : k = 1 := by omega
  rw [subst_of_marker (by omega), subst_marker_of_ne h2 (by omega),
    subst_marker_of_ne h3 (by omega)] at harg
  rw [hformat, harg]

theorem marks_decimal {index : Int} (h : 0 ≤ index ∧ index < 3) : marks v (decimal index) = [] := by
  obtain ⟨i, hi, -, hdecimal⟩ := decimal_eq h
  have hpercent : ∀ i < 3, '%' ∉ [digit i] := by decide
  rw [hdecimal]
  exact marks_eq_nil (hpercent i hi)

theorem exists_filled {row : Row} (hindex : 0 ≤ row.index ∧ row.index < 3) :
    ∃ k m, Filled v localized row k m := by
  obtain ⟨-, h2, h3⟩ := marks_markers (v := v)
  obtain ⟨k, hk, hkname, hk2, -, harg⟩ := arg_fields (a := row.name) (b := marker 2) h3
    (decimal row.index) (localized row.index)
  rw [h2, List.forall_mem_singleton] at hk2
  rw [subst_marker_of_ne h3 (by omega)] at harg
  obtain ⟨m, hm, hmname, hmsecond, hm3, harg'⟩ := arg_fields
    (a := named v localized row k)
    (b := subst v k (decimal row.index) (localized row.index) (marker 2)) h3
    row.description row.description
  rw [h2, List.mem_singleton] at hk
  refine ⟨k, m, hk2, hkname, hk.imp_right (by omega), hmname, ?_, ?_⟩
  · rcases Nat.lt_or_eq_of_le hk2 with hlt | rfl
    · -- the `%2` of the format is still there
      rw [subst_marker_of_ne h2 (by omega), h2, List.forall_mem_singleton] at hmsecond
      exact .inl ⟨hlt, hmsecond⟩
    · rw [subst_of_marker (by omega), marks_decimal hindex] at hm
      exact .inr ⟨rfl, hm3, hm.imp_right (Or.resolve_left · List.not_mem_nil)⟩
  · unfold entryText
    rw [arg_format, harg]
    exact harg'

theorem put_of_number {p : Piece} {n : Nat} (h : p.number v = some n) (a l : Text) :
    p.put a l = a ∨ p.put a l = l := by
  rcases p with c | ⟨_ | _, c, d⟩
  · cases h
  · exact .inl rfl
  · exact .inr rfl

/-- The index is one digit, wherever it is put in. -/
theorem index_digit (hlocal : ∀ i : Nat, i < 3 → ∃ c, localized i = [c] ∧ (v c).isSome)
    {index : Int} (hindex : 0 ≤ index ∧ index < 3) {p : Piece} {n : Nat}
    (h : p.number v = some n) :
    ∃ c, p.put (decimal index) (localized index) = [c] ∧ (v c).isSome := by
  obtain ⟨i, hi, rfl, hdecimal⟩ := decimal_eq hindex
  rcases put_of_number h (decimal i) (localized i) with hput | hput
  · rw [hput, hdecimal]
    exact ⟨digit i, rfl, by rw [dv_digit (by omega)]; rfl⟩
  · rw [hput]
    exact hlocal i hi

/-- Two replacements that put in less than they take out do not give the name back. -/
theorem subst_named_ne (hlocal : ∀ i : Nat, i < 3 → ∃ c, localized i = [c] ∧ (v c).isSome)
    {row : Row} (hindex : 0 ≤ row.index ∧ row.index < 3) {k : Nat} (hk : k ∈ marks v row.name)
    (m : Nat) : subst v m (marker 3) (marker 3) (named v localized row k) ≠ row.name := by
  intro heq
  have hlt : (named v localized row k).countP (fun _ => true) <
      row.name.countP fun _ => true := by
    refine countP_subst_lt (fun p hp => ?_) hk
    obtain ⟨c, hput, -⟩ := index_digit hlocal hindex hp
    have hlen := (counts_of_number hp).2.2.1
    rw [hput, List.countP_true, List.length_singleton]
    omega
  have hle : row.name.countP (fun _ => true) ≤
      (named v localized row k).countP fun _ => true := by
    conv_lhs => rw [← heq]
    refine countP_subst_le (fun p hp => ?_) _
    have hlen := (counts_of_number hp).2.2.1
    rw [put_self hp, List.countP_true]
    exact Nat.le_trans (Nat.le_add_right 2 _) hlen
  omega

/-- The fields of a row, if they are those of its entry. -/
theorem plain_of_fields (hlocal : ∀ i : Nat, i < 3 → ∃ c, localized i = [c] ∧ (v c).isSome)
    {row : Row} (hindex : 0 ≤ row.index ∧ row.index < 3) {k m : Nat}
    (h : Filled v localized row k m) (hname : '|' ∉ row.name) (hbar : '|' ∉ row.description)
    (htext : subst v m row.description row.description (named v localized row k) = row.name)
    (hdescription : subst v m row.description row.description (marker 3) = row.description) :
    row.Plain v ∨ row.Restored v localized := by
  obtain ⟨-, -, h3⟩ := marks_markers (v := v)
  have hk : k ∈ marks v row.name → m = 3 := by
    intro hk
    by_contra hm
    rw [subst_marker_of_ne h3 hm] at hdescription
    rw [← hdescription] at htext
    exact subst_named_ne hlocal hindex hk m htext
  have hkeep : k ∉ marks v row.name → named v localized row k = row.name :=
    fun hk => subst_of_not_mem hk _ _
  have hfilled : k = 2 ∧ m = 3 := by
    rcases h.description_marks with ⟨hlt, hm⟩ | ⟨rfl, hm3, hm⟩
    · have hthird := hk (h.index_marks.resolve_right (by omega))
      omega
    · refine ⟨rfl, ?_⟩
      by_cases hmem : 2 ∈ marks v row.name
      · exact hk hmem
      · rcases hm with hm | hm
        · rw [hkeep hmem] at hm
          have hge := h.index_least m hm
          have hne : m ≠ 2 := fun h2 => hmem (h2 ▸ hm)
          omega
        · exact hm
  obtain ⟨rfl, rfl⟩ := hfilled
  by_cases hmem : 2 ∈ marks v row.name
  · exact .inr ⟨hname, hbar, h.index_least, hmem, h.description_least, htext⟩
  · have hleast := h.description_least
    rw [hkeep hmem] at htext hleast
    exact .inl ⟨hname, hbar, hleast, subst_eq_self_iff.mp htext⟩

/-- The entry of a row whose lowest markers are the format's own. -/
theorem entryText_of_least {row : Row} (hindex : 0 ≤ row.index ∧ row.index < 3)
    (h2 : ∀ n ∈ marks v row.name, 2 ≤ n)
    (h3 : ∀ n ∈ marks v (named v localized row 2), 3 ≤ n) :
    entryText v localized row = fields
      (subst v 3 row.description row.description (named v localized row 2))
      (decimal row.index) row.description := by
  obtain ⟨k, m, hfilled⟩ : ∃ k m, Filled v localized row k m := exists_filled hindex
  obtain rfl : k = 2 := by
    rcases hfilled.index_marks with hk | hk
    · have hle := hfilled.index_le
      have hge := h2 k hk
      omega
    · exact hk
  obtain rfl : m = 3 := by
    rcases hfilled.description_marks with ⟨hlt, -⟩ | ⟨-, hle, hm | hm⟩
    · omega
    · have hge := h3 m hm
      omega
    · exact hm
  have hdecimal : subst v 3 row.description row.description (decimal row.index) =
      decimal row.index := by
    apply subst_of_not_mem
    rw [marks_decimal hindex]
    exact List.not_mem_nil
  have htext := hfilled.text
  rwa [subst_of_marker (by omega), subst_of_marker (by omega), hdecimal] at htext

theorem Row.Plain.named_eq {row : Row} (h : row.Plain v) :
    named v localized row 2 = row.name := by
  apply subst_of_not_mem
  intro hmem
  have hge := h.least 2 hmem
  omega

theorem Row.Plain.entryText {row : Row} (h : row.Plain v)
    (hindex : 0 ≤ row.index ∧ row.index < 3) :
    entryText v localized row = fields row.name (decimal row.index) row.description := by
  have hnamed : named v localized row 2 = row.name := h.named_eq
  have htext := entryText_of_least hindex (fun n hn => Nat.le_of_succ_le (h.least n hn))
    (by rw [hnamed]; exact h.least)
  rwa [hnamed, subst_eq_self_iff.mpr h.third] at htext

theorem Row.Restored.entryText {row : Row} (h : row.Restored v localized)
    (hindex : 0 ≤ row.index ∧ row.index < 3) :
    entryText v localized row = fields row.name (decimal row.index) row.description := by
  have htext := entryText_of_least hindex h.least h.third
  rwa [named, h.text] at htext

/-- Each marker of a name that gets the index has a `%`, which only the description brings back. -/
theorem Row.Restored.percents
    (hlocal : ∀ i : Nat, i < 3 → ∃ c, localized i = [c] ∧ (v c).isSome) {row : Row}
    (hindex : 0 ≤ row.index ∧ row.index < 3) (h : row.Restored v localized) :
    2 ≤ row.description.countP (· = '%') := by
  by_contra hfew
  have hlt : (named v localized row 2).countP (· = '%') < row.name.countP (· = '%') := by
    refine countP_subst_lt (fun p hp => ?_) h.second
    obtain ⟨c, hput, hc⟩ := index_digit hlocal hindex hp
    have hne := ne_of_isSome hc (d := '%') (by decide) (by decide)
    rw [hput, (counts_of_number hp).1]
    simp [hne]
  have hle : row.name.countP (· = '%') ≤ (named v localized row 2).countP (· = '%') := by
    conv_lhs => rw [← h.text]
    refine countP_subst_le (fun p hp => ?_) _
    rw [put_self hp, (counts_of_number hp).1]
    omega
  omega

variable {toInt}

theorem rowOf_entry {row : Row} {a b c : Text} (h : entryText v localized row = fields a b c)
    (ha : '|' ∉ a) (hb : '|' ∉ b) (hc : '|' ∉ c) :
    rowOf toInt (entry v localized row) = some ⟨a, setCurrentIndex (toInt b), c⟩ := by
  unfold rowOf entry
  rw [String.toList_ofList, h, splitOn_fields ha hb hc]
  rfl

/-- Parts have no separator in them. -/
theorem bar_of_rowOf {it : String} {row : Row} (h : rowOf toInt it = some row) :
    '|' ∉ row.name ∧ '|' ∉ row.description := by
  unfold rowOf at h
  simp only [Option.bind_eq_bind, Option.bind_eq_some_iff, Option.pure_def, Option.some.injEq] at h
  obtain ⟨name, hname, index, -, description, hdescription, rfl⟩ := h
  exact ⟨not_mem_of_mem_splitOn (List.mem_of_getElem? hname),
    not_mem_of_mem_splitOn (List.mem_of_getElem? hdescription)⟩

theorem rowOf_entry_iff (hint : ∀ i : Nat, i < 3 → toInt (decimal i) = i)
    (hlocal : ∀ i : Nat, i < 3 → ∃ c, localized i = [c] ∧ (v c).isSome) {row : Row}
    (hindex : 0 ≤ row.index ∧ row.index < 3) :
    rowOf toInt (entry v localized row) = some row ↔
      row.Plain v ∨ row.Restored v localized := by
  obtain ⟨i, hi, hrow, hdecimal⟩ := decimal_eq hindex
  have hbar : '|' ∉ decimal row.index := by
    rw [hdecimal, List.mem_singleton]
    have hall : ∀ i < 3, '|' ≠ digit i := by decide
    exact hall i hi
  have hlbar : '|' ∉ localized row.index := by
    obtain ⟨c, hc, hdigit⟩ := hlocal i hi
    rw [hrow, hc, List.mem_singleton]
    exact (ne_of_isSome hdigit (by decide) (by decide)).symm
  constructor
  · intro h
    obtain ⟨hname, hdescription⟩ := bar_of_rowOf h
    obtain ⟨k, m, hfilled⟩ : ∃ k m, Filled v localized row k m := exists_filled hindex
    have hsubst : ∀ {s : Text}, '|' ∉ s →
        '|' ∉ subst v m row.description row.description s := by
      intro s hs hmem
      rcases mem_subst hmem with h | h | h
      · exact hdescription h
      · exact hdescription h
      · exact hs h
    have hsubst' : ∀ {s : Text}, '|' ∉ s →
        '|' ∉ subst v k (decimal row.index) (localized row.index) s := by
      intro s hs hmem
      rcases mem_subst hmem with h | h | h
      · exact hbar h
      · exact hlbar h
      · exact hs h
    rw [rowOf_entry hfilled.text (hsubst (hsubst' hname)) (hsubst (hsubst' (by decide)))
      (hsubst (by decide))] at h
    have hfields := Option.some.inj h
    exact plain_of_fields hlocal hindex hfilled hname hdescription (congrArg Row.name hfields)
      (congrArg Row.description hfields)
  · intro h
    have hshown : setCurrentIndex (toInt (decimal row.index)) = row.index := by
      rw [hrow, hint i hi]
      unfold setCurrentIndex
      rw [if_pos (by omega)]
    rcases h with h | h
    · rw [rowOf_entry (h.entryText hindex) h.name hbar h.description, hshown]
    · rw [rowOf_entry (h.entryText hindex) h.name hbar h.description, hshown]

/-! ## All rows -/

theorem mapM_map_eq_some_iff {α β : Type} {f : β → Option α} {g : α → β} {l : List α} :
    (l.map g).mapM f = some l ↔ ∀ x ∈ l, f (g x) = some x := by
  induction l with
  | nil => simp
  | cons x l ih =>
    rw [List.map_cons, List.mapM_cons, List.forall_mem_cons, ← ih]
    simp only [Option.bind_eq_bind, Option.bind_eq_some_iff, Option.pure_def, Option.some.injEq,
      List.cons.injEq]
    constructor
    · rintro ⟨y, hy, ys, hys, rfl, rfl⟩
      exact ⟨hy, hys⟩
    · rintro ⟨hx, hl⟩
      exact ⟨x, hx, l, hl, rfl, rfl⟩

theorem setDomainList_domains (c : Controller) (domains : List String) :
    (setDomainList toJson c domains).p.domains = domains := by
  unfold setDomainList
  split
  · rfl
  · rename_i h
    exact not_not.mp h

/-- A MAC address has neither separators nor markers in it. -/
theorem mac_chars {s : Text} (h : exactMatch s) : s ≠ [] ∧ '|' ∉ s ∧ '%' ∉ s := by
  unfold exactMatch at h
  simp only [Bool.and_eq_true, decide_eq_true_eq, List.all_eq_true] at h
  obtain ⟨hlen, hparts⟩ := h
  have hnot : ∀ c, c ≠ ':' → (c.isDigit || ('a' ≤ c && c ≤ 'f') || ('A' ≤ c && c ≤ 'F')) = false →
      c ∉ s := by
    intro c hc hhex hmem
    obtain ⟨part, hpart, hcp⟩ := exists_part hc hmem
    rw [(hparts part hpart).2 c hcp] at hhex
    cases hhex
  refine ⟨?_, hnot '|' (by decide) (by decide), hnot '%' (by decide) (by decide)⟩
  rintro rfl
  cases hlen

/-- A row with a MAC address for its name. -/
theorem plain_of_mac {row : Row} (hmac : exactMatch row.name) :
    row.Plain v ∨ row.Restored v localized ↔ '|' ∉ row.description := by
  obtain ⟨-, hbar, hpercent⟩ := mac_chars hmac
  have hmarks := marks_eq_nil (v := v) hpercent
  constructor
  · rintro (h | h)
    · exact h.description
    · exact h.description
  · intro h
    refine .inl ⟨hbar, h, ?_, ?_⟩
    · rw [hmarks]
      intro n hn
      cases hn
    · intro t ht
      obtain ⟨p, hp, hn, -⟩ := mem_spellings.mp ht
      have hmem : 3 ∈ marks v row.name := List.mem_filterMap.mpr ⟨p, hp, hn⟩
      rw [hmarks] at hmem
      cases hmem

theorem deviceRowOf_entry_iff (hint : ∀ i : Nat, i < 3 → toInt (decimal i) = i)
    (hlocal : ∀ i : Nat, i < 3 → ∃ c, localized i = [c] ∧ (v c).isSome) {row : Row}
    (hindex : 0 ≤ row.index ∧ row.index < 3) (hmac : exactMatch row.name) :
    DeviceListDialog.rowOf toInt (entry v localized row) = some row ↔
      '|' ∉ row.description := by
  rw [DeviceListDialog.rowOf]
  constructor
  · intro h
    obtain ⟨shown, hshown, rfl⟩ := Option.map_eq_some_iff.mp h
    exact (bar_of_rowOf hshown).2
  · intro h
    rw [(rowOf_entry_iff hint hlocal hindex).mpr ((plain_of_mac hmac).mpr h), Option.map_some,
      DeviceListDialog.onTreeWidgetItemChanged, if_neg (fun h => h.2 hmac)]

/-- For the device list, rows whose names are MAC addresses. -/
theorem rows_return_iff (hint : ∀ i : Nat, i < 3 → toInt (decimal i) = i)
    (hlocal : ∀ i : Nat, i < 3 → ∃ c, localized i = [c] ∧ (v c).isSome) (c : Controller)
    {rows : List Row} (hindex : ∀ row ∈ rows, 0 ≤ row.index ∧ row.index < 3) :
    (DomainListDialog.new toInt
        (DomainListDialog.onPushButtonAcceptClicked toJson v localized c rows) = some rows ↔
        ∀ row ∈ rows, row.Plain v ∨ row.Restored v localized) ∧
      ((∀ row ∈ rows, exactMatch row.name) →
        (DeviceListDialog.new toInt
            (DeviceListDialog.onPushButtonAcceptClicked v localized c rows) = some rows ↔
          ∀ row ∈ rows, '|' ∉ row.description)) := by
  constructor
  · unfold DomainListDialog.new DomainListDialog.onPushButtonAcceptClicked
    rw [setDomainList_domains, mapM_map_eq_some_iff]
    exact forall₂_congr fun row hrow => rowOf_entry_iff hint hlocal (hindex row hrow)
  · intro hmac
    have hall : rows.filter (·.name ≠ []) = rows := by
      rw [List.filter_eq_self]
      intro row hrow
      exact decide_eq_true (mac_chars (hmac row hrow)).1
    unfold DeviceListDialog.new DeviceListDialog.onPushButtonAcceptClicked setDeviceList
    rw [hall, mapM_map_eq_some_iff]
    exact forall₂_congr fun row hrow =>
      deviceRowOf_entry_iff hint hlocal (hindex row hrow) (hmac row hrow)

end

/-- `QString::toInt`, as far as digits go. -/
def readInt (s : Text) : Int :=
  if s ≠ [] ∧ s.all Char.isDigit then
    s.foldl (fun n c => 10 * n + (c.toNat - '0'.toNat : Nat)) 0
  else 0

/-- A row of either dialog. -/
def phone : Row := ⟨"00:1a:2b:3C:4D:5E".toList, 2, "50%1 phone".toList⟩

theorem rows_return_phone :
    DomainListDialog.new readInt (DomainListDialog.onPushButtonAcceptClicked (fun _ => [])
        asciiDigits decimal (.fresh ⟨none, none, .empty, .empty, .empty⟩) [phone]) =
        some [phone] ∧
      DeviceListDialog.new readInt (DeviceListDialog.onPushButtonAcceptClicked
        asciiDigits decimal (.fresh ⟨none, none, .empty, .empty, .empty⟩) [phone]) =
        some [phone] := by
  have hint : ∀ i : Nat, i < 3 → readInt (decimal i) = i := by decide
  have hlocal : ∀ i : Nat, i < 3 → ∃ c, decimal i = [c] ∧ (asciiDigits c).isSome := by
    intro i hi
    have hall : ∀ i < 3, decimal (Int.ofNat i) = [digit i] ∧ (asciiDigits (digit i)).isSome := by
      decide
    exact ⟨digit i, hall i hi⟩
  have hindex : ∀ row ∈ [phone], 0 ≤ row.index ∧ row.index < 3 := by decide
  have hmac : exactMatch phone.name := by decide
  have hbar : '|' ∉ phone.description := by decide
  have h := rows_return_iff (fun _ => []) hint hlocal
    (.fresh ⟨none, none, .empty, .empty, .empty⟩) hindex
  simp only [List.forall_mem_singleton] at h
  exact ⟨h.1.mpr ((plain_of_mac hmac).mpr hbar), (h.2 hmac).mpr hbar⟩

/-- Of the description the part before its `|` comes back. -/
theorem description_cut :
    ¬ DomainListDialog.new readInt (DomainListDialog.onPushButtonAcceptClicked (fun _ => [])
        asciiDigits decimal (.fresh ⟨none, none, .empty, .empty, .empty⟩)
        [⟨"www.baidu.com".toList, 0, "baidu|search".toList⟩]) =
      some [⟨"www.baidu.com".toList, 0, "baidu|search".toList⟩] := by
  decide

/-- Two markers that spell themselves again. -/
example : rowOf readInt (entry asciiDigits decimal ⟨"%3L%L2".toList, 2, "%3L%".toList⟩) =
    some ⟨"%3L%L2".toList, 2, "%3L%".toList⟩ := by
  decide

end Client
end Xsky
