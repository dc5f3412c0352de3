import Xsky.Kit.Text
import Xsky.Apnic.Bitmap

/-!
# Apnic.Sync

`xsky::apnic`: the two bitmaps, `is_cn`, and the thread that fills them from the list the registry
sends.

* `syncLine` — one turn of the inner loop, on the line `std::getline` returned.
* `drain`    — the inner loop, until `getline` returns an empty line.
* `syncRead` — one turn of the outer loop, on the bytes one `read_some` returned.

`asio::ip::address::from_string` is a parameter; `none` is the exception it throws. `none` as a
result is a thread that ends: the range given to `ip.assign` has no end, or an exception escapes.
-/

namespace Xsky
namespace Apnic

open Kit

/-- `asio::ip::address`: the host-order integer of `to_uint`, or the bytes of `to_bytes`. -/
inductive Address where
  | v4 (addr : BitVec 32)
  | v6 (bytes : Mem)

structure Bitmaps where
  ipv4 : Mmap
  ipv6 : Mmap

def Bitmaps.zero : Bitmaps := ⟨.zero, .zero⟩

def isCn (b : Bitmaps) : Address → Bool
  | .v4 ip => b.ipv4.read ((ip &&& 0xFFFFFF#32) >>> 8).toNat
  | .v6 ip => b.ipv6.read (ip.read32 0).toNat

def marker : Text := "apnic|CN|ipv".toList

variable (fromString : Text → Option Address)

def syncLine (b : Bitmaps) (line : Text) : Option Bitmaps :=
  match Text.find marker line with
  | none => some b
  | some p =>
    let pos := p + 12
    match Text.findFrom '|' line (pos + 2) with
    | none => none -- `line.begin() + npos` lies before `beg`
    | some end_ =>
      let ip := Text.slice line (pos + 2) end_
      match getElem? line pos with
      | some '4' =>
        match fromString ip with
        | some (.v4 a) =>
          some { b with ipv4 := b.ipv4.write ((a &&& 0xFFFFFF#32) >>> 8).toNat true }
        | _ => none
      | some '6' =>
        match fromString ip with
        | some (.v6 bytes) => some { b with ipv6 := b.ipv6.write (bytes.read32 0).toNat true }
        | _ => none
      | _ => some b

/-- At most `n` turns; `s` is the buffer, and what is left of it is returned. -/
def drain : Nat → Bitmaps → Text → Option (Bitmaps × Text)
  | 0, b, s => some (b, s)
  | n + 1, b, s =>
    let (line, rest) := Text.getline s
    if line = [] then some (b, rest)
    else
      match syncLine fromString b line with
      | none => none
      | some b' => drain n b' rest

/-- The thread between two reads. -/
structure Sync where
  bitmaps : Bitmaps
  buf : Text

/-- Every line read takes a character of the buffer, so its length bounds the turns. -/
def syncRead (s : Sync) (bytes : Text) : Option Sync :=
  let buf := s.buf ++ bytes
  (drain fromString (buf.length + 1) s.bitmaps buf).map fun (b, rest) => ⟨b, rest⟩

/-- Each line of a list once. -/
def syncLines (b : Bitmaps) (lines : List Text) : Option Bitmaps :=
  lines.foldlM (syncLine fromString) b

variable {fromString}

theorem syncLines_cons (b : Bitmaps) (l : Text) (ls : List Text) :
    syncLines fromString b (l :: ls) =
      (syncLine fromString b l).bind fun b' => syncLines fromString b' ls := by
  simp only [syncLines, List.foldlM_cons]
  rfl

theorem drain_blank (n : Nat) (b : Bitmaps) (t : Text) :
    drain fromString (n + 1) b ('\n' :: t) = some (b, t) := by
  simp [drain, Text.getline]

/-- Lines, the last of which may lack its newline, are all processed. -/
theorem drain_lines {ls : List Text} {tail : Text} (hls : ∀ l ∈ ls, l ≠ [] ∧ '\n' ∉ l)
    (htail : '\n' ∉ tail) :
    ∀ (n : Nat) (b : Bitmaps), (Text.unlines ls ++ tail).length < n →
      drain fromString n b (Text.unlines ls ++ tail) =
        (syncLines fromString b (ls ++ if tail = [] then [] else [tail])).map (·, []) := by
  induction ls with
  | nil =>
    intro n b hn
    cases n with
    | zero => omega
    | succ n =>
      simp only [Text.unlines, List.flatMap_nil, List.nil_append, drain, Text.getline_last htail]
      by_cases h : tail = []
      · simp [h, syncLines]
      · rw [if_neg h, if_neg h, syncLines_cons]
        cases syncLine fromString b tail with
        | none => rfl
        | some b' =>
          cases n with
          | zero =>
            have hpos := List.length_pos_iff.mpr h
            simp only [Text.unlines, List.flatMap_nil, List.nil_append] at hn
            omega
          | succ n => simp [drain, Text.getline, syncLines]
  | cons l ls ih =>
    intro n b hn
    have hl := hls l (by simp)
    cases n with
    | zero => omega
    | succ n =>
      simp only [Text.unlines_cons, List.append_assoc, List.cons_append, List.length_append,
        List.length_cons] at hn ⊢
      rw [drain, Text.getline_newline _ hl.2]
      simp only [if_neg hl.1]
      rw [syncLines_cons]
      cases syncLine fromString b l with
      | none => rfl
      | some b' =>
        refine ih (fun x hx => hls x (by simp [hx])) n b' ?_
        rw [List.length_append]
        omega

end Apnic
end Xsky
