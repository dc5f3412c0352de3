import Xsky.Apnic.Sync

/-!
# Apnic.Records

The records of the registry's list, `apnic|cc|type|start|value|date|status`, and what the line loop
does with one.

* `marker_line` — the marker stands only at the start of a line, and only in a CN address record.
* `syncLine_line` — a whole record sets the bit of its start address if it is one of CN, and
  nothing else.
* `syncLine_head`, `syncLine_torn`, `syncLine_unmarked` — what it does with a part of a line: as
  the whole when the part reaches from the marker to the `|` behind the address, the end of the
  thread when it has the marker and not that `|`, nothing without the marker.
* `syncLines_records` — the bits that are set after a list of whole records.
-/

namespace Xsky
namespace Apnic

open Kit

/-- The bit of an address: in the IPv4 bitmap or in the IPv6 one. -/
def Address.bit : Address → Nat ⊕ Nat
  | .v4 a => .inl ((a &&& 0xFFFFFF#32) >>> 8).toNat
  | .v6 bytes => .inr (bytes.read32 0).toNat

def Bitmaps.holds (b : Bitmaps) : Nat ⊕ Nat → Bool
  | .inl i => b.ipv4.read i
  | .inr i => b.ipv6.read i

def Bitmaps.mark (b : Bitmaps) : Nat ⊕ Nat → Bitmaps
  | .inl i => { b with ipv4 := b.ipv4.write i true }
  | .inr i => { b with ipv6 := b.ipv6.write i true }

theorem isCn_eq (b : Bitmaps) (a : Address) : isCn b a = b.holds a.bit := by
  cases a <;> rfl

@[simp] theorem Bitmaps.holds_zero (p : Nat ⊕ Nat) : Bitmaps.zero.holds p = false := by
  cases p <;> exact Mmap.read_zero _

theorem Bitmaps.holds_mark (b : Bitmaps) (p q : Nat ⊕ Nat) :
    (b.mark p).holds q = true ↔ q = p ∨ b.holds q = true := by
  cases p with
  | inl i =>
    cases q with
    | inl j => simp only [mark, holds, Mmap.read_write, Sum.inl.injEq]; split <;> simp [*]
    | inr j => simp [mark, holds]
  | inr i =>
    cases q with
    | inl j => simp [mark, holds]
    | inr j => simp only [mark, holds, Mmap.read_write, Sum.inr.injEq]; split <;> simp [*]

theorem Bitmaps.ext_holds {b b' : Bitmaps} (h : ∀ p, b.holds p = true ↔ b'.holds p = true) :
    b = b' := by
  obtain ⟨m, m6⟩ := b
  obtain ⟨m', m6'⟩ := b'
  have h4 : m = m' := Mmap.ext_read fun i => Bool.eq_iff_iff.mpr (h (.inl i))
  have h6 : m6 = m6' := Mmap.ext_read fun i => Bool.eq_iff_iff.mpr (h (.inr i))
  rw [h4, h6]

inductive Resource where
  | asn
  | ipv4 (start : BitVec 32)
  | ipv6 (start : Mem)

def Resource.text : Resource → Text
  | .asn => "asn".toList
  | .ipv4 _ => "ipv4".toList
  | .ipv6 _ => "ipv6".toList

def Resource.address : Resource → Option Address
  | .asn => none
  | .ipv4 a => some (.v4 a)
  | .ipv6 bytes => some (.v6 bytes)

def isAddressChar (c : Char) : Bool :=
  c.isDigit || ('a' ≤ c && c ≤ 'f') || ('A' ≤ c && c ≤ 'F') || c == '.' || c == ':'

/-- A record as the list has it. The text of the start is one that `from_string` reads as the
start. -/
structure Record (fromString : Text → Option Address) where
  cc : Text
  resource : Resource
  start : Text
  value : Text
  date : Text
  status : Text
  cc_chars : ∀ c ∈ cc, c ≠ '|' ∧ c ≠ '\n'
  start_chars : ∀ c ∈ start, isAddressChar c = true
  value_chars : ∀ c ∈ value, c.isDigit = true
  date_chars : ∀ c ∈ date, c.isDigit = true
  status_chars : ∀ c ∈ status, c.isLower = true
  start_reads : ∀ a, resource.address = some a → fromString start = some a

variable {fromString : Text → Option Address}

namespace Record

/-- From the marker to the `|` behind the address. -/
def head (r : Record fromString) : Text :=
  "apnic".toList ++ '|' :: (r.cc ++ '|' :: (r.resource.text ++ '|' :: (r.start ++ ['|'])))

def line (r : Record fromString) : Text :=
  r.head ++ (r.value ++ '|' :: (r.date ++ '|' :: r.status))

/-- The start address of a CN record. -/
def listed (r : Record fromString) : Option Address :=
  if r.cc = "CN".toList then r.resource.address else none

theorem listed_eq_some {r : Record fromString} {a : Address} (h : r.listed = some a) :
    r.cc = "CN".toList ∧ r.resource.address = some a := by
  unfold listed at h
  split at h
  · rename_i hcc
    exact ⟨hcc, h⟩
  · cases h

end Record

/-! ## Fields -/

theorem field_inj {f g s t : Text} (hf : '|' ∉ f) (hg : '|' ∉ g)
    (h : f ++ '|' :: s = g ++ '|' :: t) : f = g ∧ s = t := by
  rcases List.append_eq_append_iff.mp h with ⟨u, rfl, hs⟩ | ⟨u, rfl, ht⟩
  · cases u with
    | nil => simpa using hs
    | cons c u =>
      obtain ⟨rfl, -⟩ := List.cons.inj hs
      simp at hg
  · cases u with
    | nil => simpa using ht.symm
    | cons c u =>
      obtain ⟨rfl, -⟩ := List.cons.inj ht
      simp at hf

/-- Where a field and the next `|` stand in a line of fields: at the end of the first one, or
behind it. -/
theorem field_cut {f g s t x : Text} (hf : '|' ∉ f) (hg : '|' ∉ g)
    (h : f ++ '|' :: s = x ++ (g ++ '|' :: t)) :
    f = x ++ g ∧ s = t ∨ ∃ x', x = f ++ '|' :: x' ∧ s = x' ++ (g ++ '|' :: t) := by
  rcases List.append_eq_append_iff.mp h with ⟨u, rfl, hs⟩ | ⟨u, rfl, ht⟩
  · cases u with
    | nil =>
      have hnil : ([] : Text) = g ∧ s = t := field_inj (by simp) hg (by simpa using hs)
      exact .inl ⟨by simp [hnil.1], hnil.2⟩
    | cons c u =>
      obtain ⟨rfl, hs'⟩ := List.cons.inj hs
      exact .inr ⟨u, rfl, hs'⟩
  · have hu : '|' ∉ u := fun hmem => hf (by simp [hmem])
    obtain ⟨rfl, rfl⟩ := field_inj hg hu ht
    exact .inl ⟨rfl, rfl⟩

theorem not_bar_of_addressChar {s : Text} (h : ∀ c ∈ s, isAddressChar c = true) : '|' ∉ s := by
  intro hmem
  cases h _ hmem

theorem not_bar_of_digit {s : Text} (h : ∀ c ∈ s, c.isDigit = true) : '|' ∉ s := by
  intro hmem
  cases h _ hmem

/-- No character but these is in the name of a type. -/
theorem Resource.not_mem_text {c : Char} (h : c ∉ "asnipv46".toList) (t : Resource) :
    c ∉ t.text := by
  intro hmem
  apply h
  cases t with
  | asn => exact (by decide : "asn".toList ⊆ "asnipv46".toList) hmem
  | ipv4 start => exact (by decide : "ipv4".toList ⊆ "asnipv46".toList) hmem
  | ipv6 start => exact (by decide : "ipv6".toList ⊆ "asnipv46".toList) hmem

theorem marker_eq : marker = "apnic".toList ++ '|' :: ("CN".toList ++ '|' :: "ipv".toList) := rfl

namespace Record

theorem line_eq (r : Record fromString) :
    r.line = "apnic".toList ++ '|' :: (r.cc ++ '|' :: (r.resource.text ++ '|' ::
      (r.start ++ '|' :: (r.value ++ '|' :: (r.date ++ '|' :: r.status))))) := by
  unfold line head
  generalize "apnic".toList = apnic
  simp only [List.append_assoc, List.cons_append, List.nil_append]

/-- The marker stands only at the start of a line, and only in a CN address record: no field but
the country code is `CN`. -/
theorem marker_line {r : Record fromString} {x y : Text} (h : r.line = x ++ (marker ++ y)) :
    x = [] ∧ ∃ a, r.listed = some a := by
  have hcn : '|' ∉ "CN".toList := by decide
  have hapnic : '|' ∉ "apnic".toList := by decide
  have hcc : '|' ∉ r.cc := fun hmem => (r.cc_chars _ hmem).1 rfl
  have htype := Resource.not_mem_text (show '|' ∉ _ by decide) r.resource
  rw [line_eq, marker_eq, List.append_assoc, List.cons_append, List.append_assoc,
    List.cons_append] at h
  rcases field_cut hapnic hapnic h with ⟨hx, h⟩ | ⟨x1, -, h⟩
  · obtain ⟨hcc', h⟩ := field_inj hcc hcn h
    refine ⟨List.eq_nil_of_length_eq_zero ?_, ?_⟩
    · have hlen := congrArg List.length hx
      rw [List.length_append] at hlen
      omega
    · unfold listed
      rw [if_pos hcc']
      cases hres : r.resource with
      | asn =>
        rw [hres] at h
        cases h
      | ipv4 a => exact ⟨_, rfl⟩
      | ipv6 bytes => exact ⟨_, rfl⟩
  exfalso
  rcases field_cut hcc hapnic h with ⟨-, h⟩ | ⟨x2, -, h⟩
  · obtain ⟨htext, -⟩ := field_inj htype hcn h
    cases hres : r.resource with
    | asn => rw [hres] at htext; cases htext
    | ipv4 a => rw [hres] at htext; cases htext
    | ipv6 bytes => rw [hres] at htext; cases htext
  have hstart := not_bar_of_addressChar r.start_chars
  rcases field_cut htype hapnic h with ⟨-, h⟩ | ⟨x3, -, h⟩
  · have hN := r.start_chars 'N' (by rw [(field_inj hstart hcn h).1]; decide)
    cases hN
  have hvalue := not_bar_of_digit r.value_chars
  rcases field_cut hstart hapnic h with ⟨-, h⟩ | ⟨x4, -, h⟩
  · have hN := r.value_chars 'N' (by rw [(field_inj hvalue hcn h).1]; decide)
    cases hN
  have hdate := not_bar_of_digit r.date_chars
  rcases field_cut hvalue hapnic h with ⟨-, h⟩ | ⟨x5, -, h⟩
  · have hN := r.date_chars 'N' (by rw [(field_inj hdate hcn h).1]; decide)
    cases hN
  rcases field_cut hdate hapnic h with ⟨-, h⟩ | ⟨x6, -, h⟩
  · have hN := r.status_chars 'N' (by rw [h]; simp)
    cases hN
  · have hbar := r.status_chars '|' (by rw [h]; simp)
    cases hbar

/-- The text of a CN address record up to the `|` behind the address, from the marker on. -/
theorem head_listed {r : Record fromString} {a : Address} (h : r.listed = some a) :
    ∃ d, r.head = marker ++ d :: '|' :: (r.start ++ ['|']) ∧
      ((d = '4' ∧ ∃ ip, a = .v4 ip) ∨ (d = '6' ∧ ∃ bytes, a = .v6 bytes)) := by
  obtain ⟨hcc, ha⟩ := listed_eq_some h
  have hhead : ∀ {d}, r.resource.text = "ipv".toList ++ [d] →
      r.head = marker ++ d :: '|' :: (r.start ++ ['|']) := by
    intro d htext
    unfold head
    rw [hcc, htext, marker_eq]
    generalize "apnic".toList = apnic
    generalize "CN".toList = cn
    generalize "ipv".toList = ipv
    simp only [List.append_assoc, List.cons_append, List.nil_append]
  cases hres : r.resource with
  | asn =>
    rw [hres] at ha
    cases ha
  | ipv4 ip =>
    rw [hres] at ha
    cases ha
    exact ⟨'4', hhead (by rw [hres]; rfl), .inl ⟨rfl, ip, rfl⟩⟩
  | ipv6 bytes =>
    rw [hres] at ha
    cases ha
    exact ⟨'6', hhead (by rw [hres]; rfl), .inr ⟨rfl, bytes, rfl⟩⟩

theorem newline_not_mem (r : Record fromString) : '\n' ∉ r.line := by
  have hapnic : '\n' ∉ "apnic".toList := by decide
  have hfield : ∀ {f t : Text}, '\n' ∉ f → '\n' ∉ t → '\n' ∉ f ++ '|' :: t := by
    intro f t hf ht hmem
    rcases List.mem_append.mp hmem with hmem | hmem
    · exact hf hmem
    · rcases List.mem_cons.mp hmem with hbar | hmem
      · exact absurd hbar (by decide)
      · exact ht hmem
  have hcc : '\n' ∉ r.cc := fun hmem => (r.cc_chars _ hmem).2 rfl
  have htype := Resource.not_mem_text (show '\n' ∉ _ by decide) r.resource
  have hstart : '\n' ∉ r.start := fun hmem => by cases r.start_chars _ hmem
  have hvalue : '\n' ∉ r.value := fun hmem => by cases r.value_chars _ hmem
  have hdate : '\n' ∉ r.date := fun hmem => by cases r.date_chars _ hmem
  have hstatus : '\n' ∉ r.status := fun hmem => by cases r.status_chars _ hmem
  rw [line_eq]
  exact hfield hapnic (hfield hcc (hfield htype (hfield hstart (hfield hvalue
    (hfield hdate hstatus)))))

theorem line_ne_nil (r : Record fromString) : r.line ≠ [] := by
  rw [line_eq]
  exact List.append_ne_nil_of_right_ne_nil _ (List.cons_ne_nil _ _)

end Record

theorem marker_length : marker.length = 12 := rfl

/-- The text is read up to the `|` behind the address, whatever follows. -/
theorem syncLine_head {r : Record fromString} {a : Address} (h : r.listed = some a)
    (b : Bitmaps) (t : Text) : syncLine fromString b (r.head ++ t) = some (b.mark a.bit) := by
  obtain ⟨d, hhead, hd⟩ := Record.head_listed h
  have hreads := r.start_reads a (Record.listed_eq_some h).2
  have hbar := not_bar_of_addressChar r.start_chars
  have htext : r.head ++ t = (marker ++ d :: '|' :: r.start) ++ '|' :: t := by
    rw [hhead]
    simp
  have hdrop : (marker ++ d :: '|' :: r.start).drop 14 = r.start := by
    simp [List.drop_append, marker_length]
  have hlen : (marker ++ d :: '|' :: r.start).length = 14 + r.start.length := by
    simp [marker_length]
    omega
  have hslice : Text.slice (r.head ++ t) 14 (14 + r.start.length) = r.start := by
    rw [htext, Text.slice, List.drop_append_of_le_length (by omega), hdrop,
      Nat.add_sub_cancel_left, List.take_append_of_le_length (Nat.le_refl _), List.take_length]
  have hget : (r.head ++ t)[12]? = some d := by
    rw [htext, List.append_assoc, List.getElem?_append_right (by rw [marker_length]),
      marker_length]
    rfl
  have hfrom : Text.findFrom '|' (r.head ++ t) 14 = some (14 + r.start.length) := by
    rw [htext, Text.findFrom_append 14 (by omega) (by rwa [hdrop]), hlen]
  unfold syncLine
  rw [Text.find_eq_zero ⟨(d :: '|' :: r.start) ++ '|' :: t, by rw [htext, List.append_assoc]⟩]
  simp only [Nat.zero_add, hfrom, hget, hslice]
  rcases hd with ⟨rfl, ip, rfl⟩ | ⟨rfl, bytes, rfl⟩
  · simp only [hreads]
    rfl
  · simp only [hreads]
    rfl

/-- With the marker and without the `|` behind the address. -/
theorem syncLine_torn {r : Record fromString} {a : Address} (h : r.listed = some a) (b : Bitmaps)
    {q : Text} (hq : q <+: r.head) (hmarker : marker <+: q) (hne : q ≠ r.head) :
    syncLine fromString b q = none := by
  obtain ⟨d, hhead, -⟩ := Record.head_listed h
  obtain ⟨t, ht⟩ := hq
  have hlt : q <+: marker ++ d :: '|' :: r.start := by
    rcases List.eq_nil_or_concat t with rfl | ⟨t', c, rfl⟩
    · exact absurd (by simpa using ht) hne
    · refine ⟨t', ?_⟩
      have hlast := congrArg List.dropLast (ht.trans hhead)
      rw [List.concat_eq_append, ← List.append_assoc, List.dropLast_concat,
        show marker ++ d :: '|' :: (r.start ++ ['|']) = (marker ++ d :: '|' :: r.start) ++ ['|'] by
          simp, List.dropLast_concat] at hlast
      exact hlast
  have hbar : '|' ∉ q.drop 14 := by
    intro hmem
    have hsub := (hlt.drop 14).subset hmem
    rw [List.drop_append, marker_length, show marker.drop 14 = [] from rfl, List.nil_append] at hsub
    exact not_bar_of_addressChar r.start_chars hsub
  unfold syncLine
  rw [Text.find_eq_zero hmarker]
  simp only [Nat.zero_add, Text.findFrom_eq_none hbar]

theorem syncLine_unmarked (b : Bitmaps) {q : Text} (h : ¬ marker <:+: q) :
    syncLine fromString b q = some b := by
  unfold syncLine
  rw [Text.find_eq_none_iff.mpr h]

/-- A whole record. -/
theorem syncLine_line (b : Bitmaps) (r : Record fromString) :
    syncLine fromString b r.line =
      some (match r.listed with | none => b | some a => b.mark a.bit) := by
  cases h : r.listed with
  | some a => exact syncLine_head h b _
  | none =>
    apply syncLine_unmarked
    rintro ⟨x, y, hxy⟩
    rw [List.append_assoc] at hxy
    obtain ⟨-, a, ha⟩ := Record.marker_line hxy.symm
    rw [h] at ha
    cases ha

/-- Whole records set the bits of the start addresses of those of CN, and no others. -/
theorem syncLines_records (rs : List (Record fromString)) :
    ∀ b, ∃ b', syncLines fromString b (rs.map Record.line) = some b' ∧
      ∀ p, b'.holds p = true ↔
        b.holds p = true ∨ ∃ r ∈ rs, ∃ a, r.listed = some a ∧ p = a.bit := by
  induction rs with
  | nil =>
    intro b
    exact ⟨b, rfl, fun p => by simp⟩
  | cons r rs ih =>
    intro b
    rw [List.map_cons, syncLines_cons, syncLine_line]
    obtain ⟨b', hb', hbits⟩ := ih (match r.listed with | none => b | some a => b.mark a.bit)
    refine ⟨b', hb', fun p => ?_⟩
    rw [hbits]
    cases h : r.listed with
    | none => simp [h]
    | some a =>
      simp only [Bitmaps.holds_mark, List.mem_cons, exists_eq_or_imp, h, Option.some.injEq,
        exists_eq_left', or_assoc, or_left_comm]

end Apnic
end Xsky
