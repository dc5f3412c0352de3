import Xsky.Kit.Mem

/-!
# Kit.Tlv

Option lists as protocol headers carry them: single padding bytes, an end marker, and options of a
kind, a size that counts both of these bytes, and a body.

* `find` — walks a list from a position, with the bytes left, to the first option that `stop`
  accepts.
* `Item` — an option or padding byte the walk passes over, with its encoding.
* `reads` — the positions the walk reads, kinds and sizes.

`find_eq_some_iff` reads the walk as a grammar: it stops at `p` exactly when the bytes before `p`
encode items it passes over, and an option it accepts stands at `p`, inside the list.
`find_iff_split` says the same of the list alone, whatever is in memory behind it, and `find_fuel`
that the walk ends within as many steps as the list has bytes. `reads_within_iff` says for which
lists the walk reads nothing behind them.
-/

namespace Kit
namespace Tlv

structure Grammar where
  eol : Byte
  nop : Byte
  /-- Whether the walk stops at an option of this kind and size. -/
  stop : Byte → Nat → Bool

inductive Item where
  | pad
  | opt (kind : Byte) (body : List Byte)

variable (g : Grammar)

def Item.encode : Item → List Byte
  | .pad => [g.nop]
  | .opt kind body => kind :: BitVec.ofNat 8 (body.length + 2) :: body

/-- The walk passes over the item. -/
def Item.Passed : Item → Prop
  | .pad => g.nop ≠ g.eol
  | .opt kind body =>
    kind ≠ g.eol ∧ kind ≠ g.nop ∧ body.length + 2 < 2 ^ 8 ∧ g.stop kind (body.length + 2) = false

def encode (items : List Item) : List Byte := items.flatMap (Item.encode g)

/-- `fuel` bounds the number of items. -/
def find (f : Mem) : Nat → Nat → Nat → Option Nat
  | 0, _, _ => none
  | fuel + 1, pos, left =>
    if left = 0 then none
    else if f pos = g.eol then none
    else if f pos = g.nop then find f fuel (pos + 1) (left - 1)
    else
      let size := (f (pos + 1)).toNat
      if size < 2 ∨ size > left then none
      else if g.stop (f pos) size then some pos
      else find f fuel (pos + size) (left - size)

/-- An option the walk stops at stands at `p`, with `left` bytes of the list from there on. -/
structure Stops (f : Mem) (p left : Nat) : Prop where
  not_eol : f p ≠ g.eol
  not_nop : f p ≠ g.nop
  size_ge : 2 ≤ (f (p + 1)).toNat
  size_le : (f (p + 1)).toNat ≤ left
  accepted : g.stop (f p) (f (p + 1)).toNat = true

variable {g}

theorem encode_cons (item : Item) (items : List Item) :
    encode g (item :: items) = item.encode g ++ encode g items := by
  simp [encode]

theorem Item.encode_pos (item : Item) : 1 ≤ (item.encode g).length := by
  cases item <;> simp [Item.encode]

theorem bytes_cons (f : Mem) (a n : Nat) : f.bytes a (n + 1) = f a :: f.bytes (a + 1) n := by
  have h := Mem.bytes_append f a 1 n
  rw [Nat.add_comm n 1, ← h]
  simp [Mem.bytes]

/-- The bytes at `p` are those of an option, with its size. -/
theorem bytes_opt (f : Mem) (p : Nat) (h : 2 ≤ (f (p + 1)).toNat) :
    f.bytes p (f (p + 1)).toNat =
      (Item.opt (f p) (f.bytes (p + 2) ((f (p + 1)).toNat - 2))).encode g := by
  obtain ⟨n, hn⟩ : ∃ n, (f (p + 1)).toNat = n + 2 := ⟨(f (p + 1)).toNat - 2, by omega⟩
  have hbyte : f (p + 1) = BitVec.ofNat 8 (n + 2) := by
    rw [← hn, BitVec.ofNat_toNat, BitVec.setWidth_eq]
  simp only [hn, Item.encode, Mem.bytes_length, Nat.add_sub_cancel]
  rw [bytes_cons, bytes_cons, ← hbyte]

/-- An option, by its bytes. -/
theorem opt_at {f : Mem} {pos : Nat} {kind : Byte} {body : List Byte}
    (hlt : body.length + 2 < 2 ^ 8)
    (hbytes : f.bytes pos (body.length + 2) = (Item.opt kind body).encode g) :
    f pos = kind ∧ (f (pos + 1)).toNat = body.length + 2 := by
  rw [Item.encode, bytes_cons, bytes_cons] at hbytes
  injection hbytes with h0 hbytes
  injection hbytes with h1 _
  exact ⟨h0, by rw [h1, BitVec.toNat_ofNat, Nat.mod_eq_of_lt hlt]⟩

theorem find_sound {f : Mem} {fuel pos left p : Nat} (h : find g f fuel pos left = some p) :
    ∃ items : List Item, (∀ i ∈ items, i.Passed g) ∧ p = pos + (encode g items).length ∧
      f.bytes pos (encode g items).length = encode g items ∧
      (encode g items).length ≤ left ∧ Stops g f p (left - (encode g items).length) := by
  induction fuel generalizing pos left with
  | zero => cases h
  | succ fuel ih =>
    simp only [find] at h
    split at h
    · cases h
    · rename_i hleft
      split at h
      · cases h
      · rename_i heol
        split at h
        · rename_i hnop
          obtain ⟨items, hitems, hp, hbytes, hle, hstop⟩ := ih h
          refine ⟨.pad :: items, ?_, ?_, ?_, ?_, ?_⟩
          · intro i hi
            obtain rfl | hi := List.mem_cons.mp hi
            · exact fun hne => heol (hnop.trans hne)
            · exact hitems i hi
          all_goals simp only [encode_cons, Item.encode, List.length_append, List.length_singleton,
            Nat.add_comm 1]
          · omega
          · rw [bytes_cons, hbytes, hnop]
            rfl
          · omega
          · rw [show left - ((encode g items).length + 1) =
              left - 1 - (encode g items).length by omega]
            exact hstop
        · rename_i hnop
          split at h
          · cases h
          · rename_i hsize
            split at h
            · rename_i hacc
              cases h
              refine ⟨[], by simp, rfl, rfl, Nat.zero_le _, heol, hnop, by omega, ?_, hacc⟩
              simp only [encode, List.flatMap_nil, List.length_nil]
              omega
            · rename_i hacc
              obtain ⟨items, hitems, hp, hbytes, hle, hstop⟩ := ih h
              have hbody := bytes_opt (g := g) f pos (by omega)
              have hlen := congrArg List.length hbody
              rw [Mem.bytes_length] at hlen
              refine ⟨.opt (f pos) (f.bytes (pos + 2) ((f (pos + 1)).toNat - 2)) :: items,
                ?_, ?_, ?_, ?_, ?_⟩
              · intro i hi
                obtain rfl | hi := List.mem_cons.mp hi
                · have hs : (f (pos + 1)).toNat - 2 + 2 = (f (pos + 1)).toNat := by omega
                  refine ⟨heol, hnop, ?_, ?_⟩
                  · rw [Mem.bytes_length, hs]
                    exact (f (pos + 1)).isLt
                  · rw [Mem.bytes_length, hs]
                    simpa using hacc
                · exact hitems i hi
              all_goals simp only [encode_cons, List.length_append, ← hlen]
              · omega
              · rw [← Mem.bytes_append, hbytes, hbody]
              · omega
              · rw [← Nat.sub_sub]
                exact hstop

theorem find_complete {f : Mem} {items : List Item} {fuel pos left : Nat}
    (hitems : ∀ i ∈ items, i.Passed g)
    (hbytes : f.bytes pos (encode g items).length = encode g items)
    (hle : (encode g items).length ≤ left) (hfuel : left ≤ fuel)
    (hstop : Stops g f (pos + (encode g items).length) (left - (encode g items).length)) :
    find g f fuel pos left = some (pos + (encode g items).length) := by
  induction items generalizing fuel pos left with
  | nil =>
    simp only [encode, List.flatMap_nil, List.length_nil, Nat.add_zero, Nat.sub_zero] at hstop ⊢
    have hge := hstop.size_ge
    have hlt := hstop.size_le
    obtain ⟨fuel, rfl⟩ : ∃ n, fuel = n + 1 := ⟨fuel - 1, by omega⟩
    simp only [find]
    rw [if_neg (by omega), if_neg hstop.not_eol, if_neg hstop.not_nop, if_neg (by omega),
      if_pos hstop.accepted]
  | cons item items ih =>
    rw [encode_cons, List.length_append] at hle hstop hbytes ⊢
    have hpos := item.encode_pos (g := g)
    obtain ⟨fuel, rfl⟩ : ∃ n, fuel = n + 1 := ⟨fuel - 1, by omega⟩
    rw [← Mem.bytes_append] at hbytes
    obtain ⟨hhead, htail⟩ := List.append_inj hbytes (by simp)
    have hrest : find g f fuel (pos + (item.encode g).length) (left - (item.encode g).length) =
        some (pos + (item.encode g).length + (encode g items).length) := by
      refine ih (fun i hi => hitems i (List.mem_cons_of_mem _ hi)) htail (by omega) (by omega) ?_
      rw [Nat.add_assoc, Nat.sub_sub]
      exact hstop
    rw [← Nat.add_assoc, ← hrest]
    have hpassed := hitems item List.mem_cons_self
    simp only [find]
    rw [if_neg (by omega)]
    cases item with
    | pad =>
      simp only [Item.encode, List.length_singleton] at hhead ⊢
      have h0 : f pos = g.nop := by simpa [Mem.bytes] using hhead
      rw [if_neg (by rw [h0]; exact hpassed), if_pos h0]
    | opt kind body =>
      obtain ⟨heol, hnop, hlt, hacc⟩ := hpassed
      obtain ⟨h0, hsize⟩ := opt_at hlt hhead
      simp only [Item.encode, List.length_cons] at hle ⊢
      rw [h0, if_neg heol, if_neg hnop, hsize, if_neg (by omega), if_neg (by simp [hacc])]

theorem find_eq_some_iff {f : Mem} {fuel pos left p : Nat} (hfuel : left ≤ fuel) :
    find g f fuel pos left = some p ↔
      ∃ items : List Item, (∀ i ∈ items, i.Passed g) ∧ p = pos + (encode g items).length ∧
        f.bytes pos (encode g items).length = encode g items ∧
        (encode g items).length ≤ left ∧ Stops g f p (left - (encode g items).length) := by
  constructor
  · exact find_sound
  · rintro ⟨items, hitems, rfl, hbytes, hle, hstop⟩
    exact find_complete hitems hbytes hle hfuel hstop

theorem find_fuel (f : Mem) (pos left extra : Nat) :
    find g f (left + extra) pos left = find g f left pos left := by
  apply Option.ext
  intro p
  rw [find_eq_some_iff (by omega), find_eq_some_iff (Nat.le_refl left)]

/-- The option is one the walk stops at. -/
def Item.Accepted (g : Grammar) : Item → Prop
  | .pad => False
  | .opt kind body =>
    kind ≠ g.eol ∧ kind ≠ g.nop ∧ body.length + 2 < 2 ^ 8 ∧ g.stop kind (body.length + 2) = true

/-- An option at `p`, by its bytes. -/
theorem stops_iff {f : Mem} {p left : Nat} :
    Stops g f p left ↔
      ∃ o : Item, o.Accepted g ∧ (o.encode g).length ≤ left ∧
        f.bytes p (o.encode g).length = o.encode g := by
  constructor
  · intro h
    have hsize : (f (p + 1)).toNat - 2 + 2 = (f (p + 1)).toNat := by
      have := h.size_ge
      omega
    have hbytes := bytes_opt (g := g) f p h.size_ge
    refine ⟨.opt (f p) (f.bytes (p + 2) ((f (p + 1)).toNat - 2)), ⟨h.not_eol, h.not_nop, ?_, ?_⟩,
      ?_, ?_⟩
    · rw [Mem.bytes_length, hsize]
      exact (f (p + 1)).isLt
    · rw [Mem.bytes_length, hsize]
      exact h.accepted
    · rw [← hbytes, Mem.bytes_length]
      exact h.size_le
    · rw [← hbytes, Mem.bytes_length]
  · rintro ⟨o, hacc, hle, hbytes⟩
    cases o with
    | pad => cases hacc
    | opt kind body =>
      obtain ⟨heol, hnop, hlt, hstop⟩ := hacc
      obtain ⟨rfl, hsize⟩ := opt_at hlt hbytes
      simp only [Item.encode, List.length_cons] at hle
      exact ⟨heol, hnop, by omega, by omega, by rw [hsize]; exact hstop⟩

/-- The bytes of the list decide where the walk stops, and that it does. -/
theorem find_iff_split {f : Mem} {pos left p : Nat} :
    find g f left pos left = some p ↔
      ∃ (items : List Item) (o : Item) (rest : List Byte), (∀ i ∈ items, i.Passed g) ∧
        o.Accepted g ∧ p = pos + (encode g items).length ∧
        f.bytes pos left = encode g items ++ o.encode g ++ rest := by
  rw [find_eq_some_iff (Nat.le_refl left)]
  constructor
  · rintro ⟨items, hitems, hp, hbytes, hle, hstop⟩
    obtain ⟨o, hacc, hfits, ho⟩ := stops_iff.mp hstop
    refine ⟨items, o, f.bytes (p + (o.encode g).length)
      (left - (encode g items).length - (o.encode g).length), hitems, hacc, hp, ?_⟩
    have h1 := Mem.bytes_append f pos (encode g items).length (left - (encode g items).length)
    have h2 := Mem.bytes_append f p (o.encode g).length
      (left - (encode g items).length - (o.encode g).length)
    rw [hbytes, ← hp, Nat.add_sub_cancel' hle] at h1
    rw [ho, Nat.add_sub_cancel' hfits] at h2
    rw [← h1, ← h2, List.append_assoc]
  · rintro ⟨items, o, rest, hitems, hacc, rfl, hbytes⟩
    have hlen := congrArg List.length hbytes
    rw [Mem.bytes_length, List.length_append, List.length_append] at hlen
    rw [List.append_assoc, hlen, Nat.add_assoc, ← Mem.bytes_append] at hbytes
    obtain ⟨hhead, htail⟩ := List.append_inj hbytes (Mem.bytes_length _ _ _)
    rw [← Mem.bytes_append] at htail
    obtain ⟨ho, _⟩ := List.append_inj htail (Mem.bytes_length _ _ _)
    exact ⟨items, hitems, rfl, hhead, by omega, stops_iff.mpr ⟨o, hacc, by omega, ho⟩⟩

/-! ## What the walk reads -/

/-- The positions `find` reads, in order. -/
def reads (g : Grammar) (f : Mem) : Nat → Nat → Nat → List Nat
  | 0, _, _ => []
  | fuel + 1, pos, left =>
    if left = 0 then []
    else if f pos = g.eol then [pos]
    else if f pos = g.nop then pos :: reads g f fuel (pos + 1) (left - 1)
    else
      let size := (f (pos + 1)).toNat
      pos :: (pos + 1) ::
        if size < 2 ∨ size > left then []
        else if g.stop (f pos) size then []
        else reads g f fuel (pos + size) (left - size)

/-- The walk depends on no other byte. -/
theorem find_congr {f f' : Mem} {fuel pos left : Nat}
    (h : ∀ x ∈ reads g f fuel pos left, f x = f' x) :
    find g f' fuel pos left = find g f fuel pos left := by
  induction fuel generalizing pos left with
  | zero => rfl
  | succ fuel ih =>
    simp only [reads] at h
    simp only [find]
    split at h
    · rename_i hleft
      rw [if_pos hleft, if_pos hleft]
    · rename_i hleft
      rw [if_neg hleft, if_neg hleft]
      split at h
      · rename_i heol
        rw [← h pos (by simp), if_pos heol, if_pos heol]
      · rename_i heol
        split at h
        · rename_i hnop
          rw [← h pos (by simp), if_neg heol, if_neg heol, if_pos hnop, if_pos hnop]
          exact ih fun x hx => h x (by simp [hx])
        · rename_i hnop
          rw [← h pos (by simp), ← h (pos + 1) (by simp), if_neg heol, if_neg heol, if_neg hnop,
            if_neg hnop]
          split
          · rfl
          · rename_i hsize
            split
            · rfl
            · rename_i hstop
              refine ih fun x hx => h x ?_
              simp only [if_neg hsize, if_neg hstop, List.mem_cons]
              exact .inr (.inr hx)

/-- The list is items the walk passes over and, as its last byte, a kind without a size. -/
def Lone (g : Grammar) (bs : List Byte) : Prop :=
  ∃ (items : List Item) (kind : Byte), (∀ i ∈ items, i.Passed g) ∧ kind ≠ g.eol ∧ kind ≠ g.nop ∧
    bs = encode g items ++ [kind]

/-- The walk at an item it passes over: padding, or an option by its kind and size. -/
theorem Item.Passed.at_pos {f : Mem} {pos : Nat} {item : Item} (h : item.Passed g)
    (hbytes : f.bytes pos (item.encode g).length = item.encode g) :
    (f pos = g.nop ∧ f pos ≠ g.eol ∧ (item.encode g).length = 1) ∨
      (f pos ≠ g.eol ∧ f pos ≠ g.nop ∧ 2 ≤ (f (pos + 1)).toNat ∧
        g.stop (f pos) (f (pos + 1)).toNat = false ∧
        (item.encode g).length = (f (pos + 1)).toNat) := by
  cases item with
  | pad =>
    have h0 : f pos = g.nop := by simpa [Item.encode, Mem.bytes] using hbytes
    exact .inl ⟨h0, by rw [h0]; exact h, rfl⟩
  | opt kind body =>
    obtain ⟨heol, hnop, hlt, hstop⟩ := h
    obtain ⟨rfl, hsize⟩ := opt_at hlt hbytes
    exact .inr ⟨heol, hnop, by omega, by rw [hsize]; exact hstop, hsize.symm⟩

theorem lone_iff (f : Mem) (pos left : Nat) :
    Lone g (f.bytes pos left) ↔
      (left = 1 ∧ f pos ≠ g.eol ∧ f pos ≠ g.nop) ∨
        ∃ item : Item, item.Passed g ∧ (item.encode g).length ≤ left ∧
          f.bytes pos (item.encode g).length = item.encode g ∧
          Lone g (f.bytes (pos + (item.encode g).length) (left - (item.encode g).length)) := by
  constructor
  · rintro ⟨items, kind, hitems, heol, hnop, hbytes⟩
    have hlen := congrArg List.length hbytes
    rw [Mem.bytes_length, List.length_append, List.length_singleton] at hlen
    cases items with
    | nil =>
      obtain rfl : left = 1 := hlen
      have h0 : f pos = kind := by simpa [encode, Mem.bytes] using hbytes
      exact .inl ⟨rfl, h0 ▸ heol, h0 ▸ hnop⟩
    | cons item items =>
      rw [encode_cons, List.length_append] at hlen
      have hle : (item.encode g).length ≤ left := by omega
      rw [encode_cons, List.append_assoc, ← Nat.add_sub_cancel' hle, ← Mem.bytes_append] at hbytes
      obtain ⟨hhead, htail⟩ := List.append_inj hbytes (Mem.bytes_length _ _ _)
      exact .inr ⟨item, hitems item (by simp), hle, hhead, items, kind,
        fun i hi => hitems i (by simp [hi]), heol, hnop, htail⟩
  · rintro (⟨rfl, heol, hnop⟩ | ⟨item, hitem, hle, hhead, items, kind, hitems, heol, hnop, htail⟩)
    · exact ⟨[], f pos, by simp, heol, hnop, by simp [encode, Mem.bytes]⟩
    · refine ⟨item :: items, kind, ?_, heol, hnop, ?_⟩
      · intro i hi
        obtain rfl | hi := List.mem_cons.mp hi
        · exact hitem
        · exact hitems i hi
      · rw [encode_cons, List.append_assoc, ← htail, ← Nat.add_sub_cancel' hle, ← Mem.bytes_append,
          hhead, Nat.add_sub_cancel_left]

theorem not_lone_eol {f : Mem} {pos : Nat} (left : Nat) (heol : f pos = g.eol) :
    ¬ Lone g (f.bytes pos left) := by
  rw [lone_iff]
  rintro (⟨-, hne, -⟩ | ⟨item, hitem, -, hbytes, -⟩)
  · exact hne heol
  · obtain ⟨-, hne, -⟩ | ⟨hne, -⟩ := hitem.at_pos hbytes
    · exact hne heol
    · exact hne heol

theorem lone_nop {f : Mem} {pos left : Nat} (hleft : 1 ≤ left) (heol : f pos ≠ g.eol)
    (hnop : f pos = g.nop) :
    Lone g (f.bytes pos left) ↔ Lone g (f.bytes (pos + 1) (left - 1)) := by
  rw [lone_iff]
  constructor
  · rintro (⟨-, -, hne⟩ | ⟨item, hitem, -, hbytes, hrest⟩)
    · exact absurd hnop hne
    · obtain ⟨-, -, hlen⟩ | ⟨-, hne, -⟩ := hitem.at_pos hbytes
      · rwa [hlen] at hrest
      · exact absurd hnop hne
  · intro hrest
    refine .inr ⟨.pad, ?_, hleft, ?_, hrest⟩
    · exact fun h => heol (hnop.trans h)
    · simp [Item.encode, Mem.bytes, hnop]

theorem lone_opt {f : Mem} {pos : Nat} (left : Nat) (heol : f pos ≠ g.eol) (hnop : f pos ≠ g.nop) :
    Lone g (f.bytes pos left) ↔
      left = 1 ∨ (2 ≤ (f (pos + 1)).toNat ∧ (f (pos + 1)).toNat ≤ left ∧
        g.stop (f pos) (f (pos + 1)).toNat = false ∧
        Lone g (f.bytes (pos + (f (pos + 1)).toNat) (left - (f (pos + 1)).toNat))) := by
  rw [lone_iff]
  constructor
  · rintro (⟨hone, -⟩ | ⟨item, hitem, hle, hbytes, hrest⟩)
    · exact .inl hone
    · obtain ⟨hpad, -⟩ | ⟨-, -, hge, hstop, hlen⟩ := hitem.at_pos hbytes
      · exact absurd hpad hnop
      · rw [hlen] at hle hrest
        exact .inr ⟨hge, hle, hstop, hrest⟩
  · rintro (hone | ⟨hge, hle, hstop, hrest⟩)
    · exact .inl ⟨hone, heol, hnop⟩
    · have hbytes := bytes_opt (g := g) f pos hge
      have hlen := congrArg List.length hbytes
      have hsize : (f (pos + 1)).toNat - 2 + 2 = (f (pos + 1)).toNat := by omega
      rw [Mem.bytes_length] at hlen
      refine .inr ⟨.opt (f pos) (f.bytes (pos + 2) ((f (pos + 1)).toNat - 2)), ⟨heol, hnop, ?_, ?_⟩,
        ?_, ?_, ?_⟩
      · rw [Mem.bytes_length, hsize]
        exact (f (pos + 1)).isLt
      · rw [Mem.bytes_length, hsize]
        exact hstop
      · rwa [← hlen]
      · rw [← hlen]
        exact hbytes
      · rw [← hlen]
        exact hrest

/-- The walk reads behind the list exactly when the list ends in a kind without its size. -/
theorem reads_within_iff {f : Mem} {fuel pos left : Nat} (hfuel : left ≤ fuel) :
    (∀ x ∈ reads g f fuel pos left, x < pos + left) ↔ ¬ Lone g (f.bytes pos left) := by
  have hempty : ∀ pos, ¬ Lone g (f.bytes pos 0) := by
    rintro pos ⟨items, kind, -, -, -, hbytes⟩
    have hlen := congrArg List.length hbytes
    simp at hlen
  induction fuel generalizing pos left with
  | zero =>
    obtain rfl : left = 0 := by omega
    exact ⟨fun _ => hempty pos, fun _ x hx => by cases hx⟩
  | succ fuel ih =>
    simp only [reads]
    split
    · rename_i hleft
      subst hleft
      exact ⟨fun _ => hempty pos, fun _ x hx => by cases hx⟩
    · rename_i hleft
      split
      · rename_i heol
        refine ⟨fun _ => not_lone_eol left heol, fun _ x hx => ?_⟩
        rw [List.mem_singleton] at hx
        omega
      · rename_i heol
        split
        · rename_i hnop
          have hrest := @ih (pos + 1) (left - 1) (by omega)
          rw [show pos + 1 + (left - 1) = pos + left by omega] at hrest
          rw [lone_nop (by omega) heol hnop, List.forall_mem_cons]
          exact (and_iff_right (by omega)).trans hrest
        · rename_i hnop
          rw [lone_opt left heol hnop, List.forall_mem_cons, List.forall_mem_cons]
          by_cases hone : left = 1
          · -- the size is read at the first position behind the list
            subst hone
            exact ⟨fun h => absurd h.2.1 (by omega), fun h => absurd (.inl rfl) h⟩
          · rw [and_iff_right (show pos < pos + left by omega),
              and_iff_right (show pos + 1 < pos + left by omega)]
            split
            · rename_i hsize
              refine ⟨fun _ => ?_, fun _ x hx => by cases hx⟩
              rintro (h | ⟨hge, hle, -⟩)
              · exact hone h
              · omega
            · rename_i hsize
              split
              · rename_i hstop
                refine ⟨fun _ => ?_, fun _ x hx => by cases hx⟩
                rintro (h | ⟨-, -, hno, -⟩)
                · exact hone h
                · rw [hstop] at hno
                  cases hno
              · rename_i hstop
                have hno := Bool.eq_false_iff.mpr hstop
                have hrest := @ih (pos + (f (pos + 1)).toNat) (left - (f (pos + 1)).toNat)
                  (by omega)
                rw [show pos + (f (pos + 1)).toNat + (left - (f (pos + 1)).toNat) =
                  pos + left by omega] at hrest
                refine hrest.trans (not_congr ⟨fun hl => .inr ⟨by omega, by omega, hno, hl⟩, ?_⟩)
                rintro (h | ⟨-, -, -, hl⟩)
                · exact absurd h hone
                · exact hl

end Tlv
end Kit
