import Xsky.Kit.Runs
import Xsky.Apnic.Member

/-!
# Apnic.Chunks

The loader over a list of whole records that arrives in reads of any size.

`getline` takes what is left of the buffer for a line, so a record that a read cuts is processed in
two parts; and a read that starts with the newline of the last record is left in the buffer, so the
next one is appended to it. `blocks` are the texts the inner loop works on.

`chunking_iff`: the loader leaves the bitmaps of the whole lines in exactly the cuts where no block
ends inside a CN address that its marker precedes, and every CN record, or another one with its
bit, has the text up to its address in one block. `cut_marker_loses_record` is a cut that does not.
-/

namespace Xsky
namespace Apnic

open Kit

/-- A text as successive results of `read_some`. -/
structure Segmentation (s : Text) where
  reads : List Text
  sizes : ∀ c ∈ reads, 1 ≤ c.length ∧ c.length ≤ 512
  flatten_eq : reads.flatten = s

/-- What is left of the buffer, and the reads to come. A read that starts with the newline of the
record before it is not processed but joined to the next one. -/
def blocks : Text → List Text → List Text
  | _, [] => []
  | rest, c :: cs =>
    if (rest ++ c).head? = some '\n' then blocks (rest ++ c).tail cs
    else (rest ++ c) :: blocks [] cs

variable {fromString : Text → Option Address}

/-- The block ends behind the record's marker and before the `|` behind its address. -/
def Record.TornBy (r : Record fromString) (block : Text) : Prop :=
  ∃ q, q <+: r.head ∧ q ≠ r.head ∧ marker <+: q ∧ q <:+ block

/-- No CN record is torn, and each has its bit set by one that lies in a block up to its address. -/
structure ReadsKeep (b : Bitmaps) (rs : List (Record fromString)) (bs : List Text) : Prop where
  whole : ∀ block ∈ bs, ∀ r ∈ rs, r.listed ≠ none → ¬ r.TornBy block
  kept : ∀ r ∈ rs, ∀ a, r.listed = some a → b.holds a.bit = true ∨
    ∃ block ∈ bs, ∃ r' ∈ rs, ∃ a', r'.listed = some a' ∧ a.bit = a'.bit ∧ r'.head <:+: block

/-! ## The parts of a block -/

/-- The marker stands only at the start of a part of a line. -/
theorem marker_first {rs : List (Record fromString)} {p x y : Text} (hp : p <:+: stream rs)
    (hnl : '\n' ∉ p) (hx : p = x ++ (marker ++ y)) :
    x = [] ∧ ∃ r ∈ rs, r.listed ≠ none ∧ p <+: r.line := by
  have hne : p ≠ [] := by
    rw [hx, marker_eq]
    simp
  obtain ⟨l, hl, u, v, huv⟩ := Text.infix_unlines hnl hp hne
  obtain ⟨r, hr, rfl⟩ := List.mem_map.mp hl
  have hline : r.line = (u ++ x) ++ (marker ++ (y ++ v)) := by
    rw [← huv, hx]
    simp only [List.append_assoc]
  obtain ⟨hnil, a, ha⟩ := Record.marker_line hline
  obtain ⟨hu, hx'⟩ := List.append_eq_nil_iff.mp hnil
  refine ⟨hx', r, hr, by rw [ha]; simp, v, ?_⟩
  rw [← huv, hu, List.nil_append]

theorem marker_prefix_head {r : Record fromString} {a : Address} (h : r.listed = some a) :
    marker <+: r.head := by
  obtain ⟨d, hd, -⟩ := Record.head_listed h
  exact ⟨_, hd.symm⟩

theorem head_newline (r : Record fromString) : '\n' ∉ r.head := fun h =>
  r.newline_not_mem (List.mem_append_left _ h)

/-- A part without the marker, one that reaches behind the address, or one that ends before. -/
theorem part_cases {rs : List (Record fromString)} {p : Text} (hp : p <:+: stream rs)
    (hnl : '\n' ∉ p) :
    ¬ marker <:+: p ∨ ∃ r ∈ rs, ∃ a, r.listed = some a ∧
      (r.head <+: p ∨ p <+: r.head ∧ p ≠ r.head ∧ marker <+: p) := by
  by_cases hm : marker <:+: p
  · obtain ⟨x, y, hxy⟩ := hm
    rw [List.append_assoc] at hxy
    obtain ⟨rfl, r, hr, hlisted, hpre⟩ := marker_first hp hnl hxy.symm
    obtain ⟨a, ha⟩ := Option.ne_none_iff_exists'.mp hlisted
    refine .inr ⟨r, hr, a, ha, ?_⟩
    rcases List.prefix_or_prefix_of_prefix (List.prefix_append r.head _) hpre with h | h
    · exact .inl h
    · by_cases heq : p = r.head
      · exact .inl (by rw [heq])
      · exact .inr ⟨h, heq, y, hxy⟩
  · exact .inl hm

/-- The bit is that of a record whose address the text reaches behind. -/
def HeadIn (rs : List (Record fromString)) (p : Text) (bit : Nat ⊕ Nat) : Prop :=
  ∃ r ∈ rs, ∃ a, r.listed = some a ∧ bit = a.bit ∧ r.head <+: p

theorem syncLine_headIn {rs : List (Record fromString)} {r : Record fromString} {a : Address}
    {p : Text} (hr : r ∈ rs) (ha : r.listed = some a) (hp : r.head <+: p) (bit : Nat ⊕ Nat) :
    HeadIn rs p bit ↔ bit = a.bit := by
  constructor
  · rintro ⟨r', -, a', ha', rfl, t', rfl⟩
    obtain ⟨t, ht⟩ := hp
    have h := syncLine_head ha .zero t
    rw [ht, syncLine_head ha' .zero t', Option.some.injEq] at h
    have hbit := (Bitmaps.holds_mark .zero a'.bit a'.bit).mpr (.inl rfl)
    rw [h, Bitmaps.holds_mark] at hbit
    simpa using hbit
  · rintro rfl
    exact ⟨r, hr, a, ha, rfl, hp⟩

/-- Parts none of which ends inside an address: those that reach behind one set its bit. -/
theorem syncLines_parts {rs : List (Record fromString)} {ps : List Text}
    (hps : ∀ p ∈ ps, p <:+: stream rs ∧ '\n' ∉ p)
    (htorn : ∀ p ∈ ps, ∀ r ∈ rs, r.listed ≠ none → ¬ r.TornBy p) :
    ∀ b, ∃ b', syncLines fromString b ps = some b' ∧
      ∀ bit, b'.holds bit = true ↔ b.holds bit = true ∨ ∃ p ∈ ps, HeadIn rs p bit := by
  induction ps with
  | nil =>
    intro b
    exact ⟨b, rfl, fun bit => by simp⟩
  | cons p ps ih =>
    intro b
    have hp := hps p (by simp)
    have ih' := ih (fun q hq => hps q (by simp [hq])) (fun q hq => htorn q (by simp [hq]))
    rw [syncLines_cons]
    rcases part_cases hp.1 hp.2 with hm | ⟨r, hr, a, ha, hhead | ⟨hpre, hne, hm⟩⟩
    · obtain ⟨b', hb', hbits⟩ := ih' b
      refine ⟨b', by rw [syncLine_unmarked b hm]; exact hb', fun bit => ?_⟩
      have hno : ¬ HeadIn rs p bit := by
        rintro ⟨r, -, a, ha, -, hhead⟩
        exact hm ((marker_prefix_head ha).trans hhead).isInfix
      rw [hbits]
      simp [hno]
    · obtain ⟨t, ht⟩ := hhead
      obtain ⟨b', hb', hbits⟩ := ih' (b.mark a.bit)
      refine ⟨b', by rw [← ht, syncLine_head ha]; exact hb', fun bit => ?_⟩
      rw [hbits, Bitmaps.holds_mark]
      simp only [List.mem_cons, exists_eq_or_imp, syncLine_headIn hr ha ⟨t, ht⟩, or_assoc,
        or_left_comm]
    · exact absurd ⟨p, hpre, hne, hm, List.suffix_refl p⟩ (htorn p (by simp) r hr (by simp [ha]))

/-- A part on which the loop ends the thread. -/
theorem syncLines_none {ps : List Text} {p : Text} (hp : p ∈ ps)
    (h : ∀ b, syncLine fromString b p = none) : ∀ b, syncLines fromString b ps = none := by
  induction ps with
  | nil => simp at hp
  | cons q ps ih =>
    intro b
    rw [syncLines_cons]
    rcases List.mem_cons.mp hp with rfl | hp
    · rw [h]
      rfl
    · cases syncLine fromString b q with
      | none => rfl
      | some b' => exact ih hp b'

/-! ## One block -/

theorem stream_lines (rs : List (Record fromString)) :
    ∀ l ∈ rs.map Record.line, l ≠ [] ∧ '\n' ∉ l := by
  intro l hl
  obtain ⟨r, -, rfl⟩ := List.mem_map.mp hl
  exact ⟨r.line_ne_nil, r.newline_not_mem⟩

/-- The parts the loop takes a block in: whole lines, and a last one that no newline ends. -/
theorem exists_parts {rs : List (Record fromString)} {block : Text} (hin : block <:+: stream rs)
    (hhead : block.head? ≠ some '\n') :
    ∃ ls tail, block = Text.unlines ls ++ tail ∧ (∀ l ∈ ls, '\n' ∉ l) ∧ '\n' ∉ tail ∧
      ∀ b, drain fromString (block.length + 1) b block =
        (syncLines fromString b (ls ++ if tail = [] then [] else [tail])).map (·, []) := by
  obtain ⟨ls, tail, rfl, hls, htail⟩ := Text.exists_unlines block
  have hblank : ¬ ['\n', '\n'] <:+: Text.unlines ls ++ tail := fun h =>
    Text.not_blank_unlines (stream_lines rs) (h.trans hin)
  have hne := Text.ne_nil_of_not_blank hhead hblank
  exact ⟨ls, tail, rfl, hls, htail, fun b =>
    drain_lines (fun l hl => ⟨hne l hl, hls l hl⟩) htail _ b (Nat.lt_succ_self _)⟩

theorem mem_parts {ls : List Text} {tail p : Text} (hp : p ≠ []) :
    p ∈ (ls ++ if tail = [] then [] else [tail]) ↔ p ∈ ls ∨ p = tail := by
  by_cases h : tail = []
  · subst h
    simp [hp]
  · simp [h]

/-- A line or the last part lies in its block. -/
theorem part_within {ls : List Text} {tail p : Text} (hp : p ∈ ls ∨ p = tail) :
    p <:+: Text.unlines ls ++ tail := by
  rcases hp with hp | rfl
  · obtain ⟨ls₁, ls₂, rfl⟩ := List.append_of_mem hp
    refine ⟨Text.unlines ls₁, '\n' :: (Text.unlines ls₂ ++ tail), ?_⟩
    simp [Text.unlines]
  · exact (List.suffix_append _ _).isInfix

/-- A record's text lies in a block up to the address in exactly the blocks that have a part which
starts with it. -/
theorem head_infix_iff {rs : List (Record fromString)} {ls : List Text} {tail : Text}
    (hin : Text.unlines ls ++ tail <:+: stream rs) (hls : ∀ l ∈ ls, '\n' ∉ l)
    (htail : '\n' ∉ tail) (bit : Nat ⊕ Nat) :
    (∃ p, p ∈ (ls ++ if tail = [] then [] else [tail]) ∧ HeadIn rs p bit) ↔
      ∃ r ∈ rs, ∃ a, r.listed = some a ∧ bit = a.bit ∧ r.head <:+: Text.unlines ls ++ tail := by
  constructor
  · rintro ⟨p, hp, r, hr, a, ha, hbit, hhead⟩
    have hp' : p ≠ [] := by
      rintro rfl
      simp [Record.head] at hhead
    exact ⟨r, hr, a, ha, hbit,
      hhead.isInfix.trans (part_within ((mem_parts hp').mp hp))⟩
  · rintro ⟨r, hr, a, ha, hbit, hhead⟩
    have hall : r.head <:+: Text.unlines (ls ++ [tail]) :=
      hhead.trans ⟨[], ['\n'], by simp [Text.unlines]⟩
    obtain ⟨p, hp, x, y, hxy⟩ := Text.infix_unlines (head_newline r) hall (by simp [Record.head])
    have hp' : p ∈ ls ∨ p = tail := by simpa using hp
    have hpin : p <:+: stream rs := (part_within hp').trans hin
    have hnl : '\n' ∉ p := by
      rcases hp' with hp' | rfl
      · exact hls p hp'
      · exact htail
    -- the part has the marker, which stands only at the start of a line
    obtain ⟨t, ht⟩ := marker_prefix_head ha
    have hx : p = x ++ (marker ++ (t ++ y)) := by
      rw [← hxy, ← ht]
      simp only [List.append_assoc]
    obtain ⟨rfl, -⟩ := marker_first hpin hnl hx
    refine ⟨p, (mem_parts ?_).mpr hp', r, hr, a, ha, hbit, y, hxy⟩
    rintro rfl
    rw [marker_eq] at hx
    simp at hx

/-- A last part of a part of a line that has the marker first is the whole of it. -/
theorem eq_of_suffix_marker {rs : List (Record fromString)} {p q : Text} (hp : p <:+: stream rs)
    (hnl : '\n' ∉ p) (hq : q <:+ p) (hm : marker <+: q) : q = p := by
  obtain ⟨x, hx⟩ := hq
  obtain ⟨y, hy⟩ := hm
  obtain ⟨rfl, -⟩ := marker_first hp hnl (x := x) (y := y) (by rw [hy, hx])
  exact hx

/-- A line of a block that its newline ends is whole. -/
theorem not_torn_line {rs : List (Record fromString)} {p : Text} (hp : p ++ ['\n'] <:+: stream rs)
    (hnl : '\n' ∉ p) {r : Record fromString} {a : Address} (ha : r.listed = some a) :
    ¬ r.TornBy p := by
  rintro ⟨q, hq, hne, hm, hqp⟩
  have hpin : p <:+: stream rs := List.IsInfix.trans ⟨[], ['\n'], by simp⟩ hp
  obtain rfl := eq_of_suffix_marker hpin hnl hqp hm
  obtain ⟨l, hl, u, hu⟩ :=
    Text.infix_unlines_newline hnl (fun l hl => (stream_lines rs l hl).2) hp
  obtain ⟨r', -, rfl⟩ := List.mem_map.mp hl
  obtain ⟨y, hy⟩ := hm
  have hline : r'.line = u ++ (marker ++ y) := by rw [hy, hu]
  obtain ⟨rfl, -⟩ := Record.marker_line hline
  -- the loop would end on a torn part, and does not on a line
  have hnone := syncLine_torn ha .zero hq ⟨y, hy⟩ hne
  rw [← List.nil_append q, hu, syncLine_line] at hnone
  cases hnone

theorem drain_whole {rs : List (Record fromString)} {block : Text} (hin : block <:+: stream rs)
    (hhead : block.head? ≠ some '\n')
    (hwhole : ∀ r ∈ rs, r.listed ≠ none → ¬ r.TornBy block) (b : Bitmaps) :
    ∃ b', drain fromString (block.length + 1) b block = some (b', []) ∧
      ∀ bit, b'.holds bit = true ↔ b.holds bit = true ∨
        ∃ r ∈ rs, ∃ a, r.listed = some a ∧ bit = a.bit ∧ r.head <:+: block := by
  obtain ⟨ls, tail, rfl, hls, htail, hdrain⟩ := exists_parts hin hhead
  have hps : ∀ p ∈ (ls ++ if tail = [] then [] else [tail]),
      p <:+: stream rs ∧ '\n' ∉ p := by
    intro p hp
    by_cases hp' : p = []
    · subst hp'
      exact ⟨List.nil_infix, by simp⟩
    · have hmem := (mem_parts hp').mp hp
      refine ⟨(part_within hmem).trans hin, ?_⟩
      rcases hmem with hmem | rfl
      · exact hls p hmem
      · exact htail
  have htorn : ∀ p ∈ (ls ++ if tail = [] then [] else [tail]), ∀ r ∈ rs, r.listed ≠ none →
      ¬ r.TornBy p := by
    rintro p hp r hr hlisted ⟨q, hq, hne, hm, hqp⟩
    have hp' : p ≠ [] := by
      rintro rfl
      obtain rfl := List.suffix_nil.mp hqp
      simp [marker_eq] at hm
    rcases (mem_parts hp').mp hp with hmem | rfl
    · have hend : p ++ ['\n'] <:+: stream rs := by
        obtain ⟨ls₁, ls₂, rfl⟩ := List.append_of_mem hmem
        refine List.IsInfix.trans ⟨Text.unlines ls₁, Text.unlines ls₂ ++ tail, ?_⟩ hin
        simp [Text.unlines]
      obtain ⟨a, ha⟩ := Option.ne_none_iff_exists'.mp hlisted
      exact not_torn_line hend (hls p hmem) ha ⟨q, hq, hne, hm, hqp⟩
    · exact hwhole r hr hlisted ⟨q, hq, hne, hm, hqp.trans (List.suffix_append _ _)⟩
  obtain ⟨b', hb', hbits⟩ := syncLines_parts hps htorn b
  refine ⟨b', by rw [hdrain, hb']; rfl, fun bit => ?_⟩
  rw [hbits, head_infix_iff hin hls htail]

theorem drain_torn {rs : List (Record fromString)} {block : Text} (hin : block <:+: stream rs)
    (hhead : block.head? ≠ some '\n') {r : Record fromString} {a : Address}
    (ha : r.listed = some a) (htorn : r.TornBy block) (b : Bitmaps) :
    drain fromString (block.length + 1) b block = none := by
  obtain ⟨ls, tail, rfl, hls, htail, hdrain⟩ := exists_parts hin hhead
  obtain ⟨q, hq, hne, hm, hqb⟩ := htorn
  have hnl : '\n' ∉ q := fun h => head_newline r (hq.subset h)
  have hqt : q <:+ tail := Text.suffix_unlines ls hnl hqb
  obtain rfl := eq_of_suffix_marker ((part_within (.inr rfl)).trans hin) htail hqt hm
  have hq' : q ≠ [] := by
    rintro rfl
    simp [marker_eq] at hm
  rw [hdrain, syncLines_none ((mem_parts hq').mpr (.inr rfl)) fun b => syncLine_torn ha b hq hm hne]
  rfl

/-! ## Runs over reads -/

/-- Without a torn record, the bits set are those of the records that lie in a block up to their
address. -/
theorem run_whole {rs : List (Record fromString)} {cs : List Text} :
    ∀ {rest : Text} (b : Bitmaps), rest ++ cs.flatten <:+: stream rs →
      (∀ block ∈ blocks rest cs, ∀ r ∈ rs, r.listed ≠ none → ¬ r.TornBy block) →
      ∃ s, run (syncRead fromString) ⟨b, rest⟩ cs = some s ∧
        ∀ bit, s.bitmaps.holds bit = true ↔ b.holds bit = true ∨ ∃ block ∈ blocks rest cs,
          ∃ r ∈ rs, ∃ a, r.listed = some a ∧ bit = a.bit ∧ r.head <:+: block := by
  induction cs with
  | nil =>
    intro rest b _ _
    exact ⟨⟨b, rest⟩, rfl, fun bit => by simp [blocks]⟩
  | cons c cs ih =>
    intro rest b hin hwhole
    rw [List.flatten_cons, ← List.append_assoc] at hin
    by_cases hhead : (rest ++ c).head? = some '\n'
    · -- the empty line stops the inner loop, and the rest stays in the buffer
      obtain ⟨t, ht⟩ := List.head?_eq_some_iff.mp hhead
      have hblocks : blocks rest (c :: cs) = blocks t cs := by
        rw [blocks, if_pos hhead, ht, List.tail_cons]
      have hstep : syncRead fromString ⟨b, rest⟩ c = some ⟨b, t⟩ := by
        simp only [syncRead, ht, drain_blank, Option.map_some]
      rw [ht] at hin
      rw [hblocks] at hwhole ⊢
      obtain ⟨s, hs, hbits⟩ := ih b (List.IsInfix.trans ⟨['\n'], [], by simp⟩ hin) hwhole
      exact ⟨s, by rw [run_cons hstep]; exact hs, hbits⟩
    · have hblocks : blocks rest (c :: cs) = (rest ++ c) :: blocks [] cs := by
        rw [blocks, if_neg hhead]
      have hblock : rest ++ c <:+: stream rs :=
        List.IsInfix.trans (List.prefix_append _ _).isInfix hin
      have hcs : [] ++ cs.flatten <:+: stream rs :=
        List.IsInfix.trans (List.suffix_append _ _).isInfix hin
      rw [hblocks] at hwhole ⊢
      obtain ⟨b', hb', hbits'⟩ := drain_whole hblock hhead (hwhole _ (by simp)) b
      have hstep : syncRead fromString ⟨b, rest⟩ c = some ⟨b', []⟩ := by
        simp only [syncRead, hb', Option.map_some]
      obtain ⟨s, hs, hbits⟩ := ih b' hcs fun block hb => hwhole block (by simp [hb])
      refine ⟨s, by rw [run_cons hstep]; exact hs, fun bit => ?_⟩
      rw [hbits, hbits']
      simp only [List.mem_cons, exists_eq_or_imp, or_assoc]

/-- A torn record ends the thread. -/
theorem run_torn {rs : List (Record fromString)} {r : Record fromString} {a : Address}
    (ha : r.listed = some a) {cs : List Text} :
    ∀ {rest : Text} (b : Bitmaps), rest ++ cs.flatten <:+: stream rs →
      (∃ block ∈ blocks rest cs, r.TornBy block) →
      run (syncRead fromString) ⟨b, rest⟩ cs = none := by
  induction cs with
  | nil =>
    rintro rest b - ⟨block, hblock, -⟩
    simp [blocks] at hblock
  | cons c cs ih =>
    rintro rest b hin ⟨block, hblock, htorn⟩
    rw [List.flatten_cons, ← List.append_assoc] at hin
    by_cases hhead : (rest ++ c).head? = some '\n'
    · obtain ⟨t, ht⟩ := List.head?_eq_some_iff.mp hhead
      rw [blocks, if_pos hhead, ht, List.tail_cons] at hblock
      have hstep : syncRead fromString ⟨b, rest⟩ c = some ⟨b, t⟩ := by
        simp only [syncRead, ht, drain_blank, Option.map_some]
      rw [ht] at hin
      rw [run_cons hstep]
      exact ih b (List.IsInfix.trans ⟨['\n'], [], by simp⟩ hin) ⟨block, hblock, htorn⟩
    · rw [blocks, if_neg hhead] at hblock
      have hin' : rest ++ c <:+: stream rs :=
        List.IsInfix.trans (List.prefix_append _ _).isInfix hin
      have hcs : [] ++ cs.flatten <:+: stream rs :=
        List.IsInfix.trans (List.suffix_append _ _).isInfix hin
      rcases List.mem_cons.mp hblock with rfl | hblock
      · simp only [run, syncRead, drain_torn hin' hhead ha htorn, Option.map_none]
      · cases hstep : syncRead fromString ⟨b, rest⟩ c with
        | none => simp only [run, hstep]
        | some s =>
          -- a block is taken whole, so nothing is left of it
          have hs : s = ⟨s.bitmaps, []⟩ := by
            obtain ⟨ls, tail, -, -, -, hdrain⟩ := exists_parts hin' hhead
            simp only [syncRead, hdrain, Option.map_map, Option.map_eq_some_iff] at hstep
            obtain ⟨b', -, rfl⟩ := hstep
            rfl
          rw [run_cons hstep, hs]
          exact ih s.bitmaps hcs ⟨block, hblock, htorn⟩

/-- One way of cutting the text: the thread gets through it with the bitmaps of the whole lines if
and only if no record is torn and each has its bit set. -/
theorem sync_reads_iff (b : Bitmaps) (rs : List (Record fromString)) (cs : Segmentation (stream rs))
    {b' : Bitmaps} (hb' : syncLines fromString b (rs.map Record.line) = some b') :
    (∃ s, run (syncRead fromString) ⟨b, []⟩ cs.reads = some s ∧ s.bitmaps = b') ↔
      ReadsKeep b rs (blocks [] cs.reads) := by
  obtain ⟨b'', hb'', hall⟩ := syncLines_records rs b
  rw [hb'] at hb''
  cases hb''
  have hin : [] ++ cs.reads.flatten <:+: stream rs := by
    rw [cs.flatten_eq]
    exact List.infix_refl _
  constructor
  · rintro ⟨s, hs, rfl⟩
    have hwhole : ∀ block ∈ blocks [] cs.reads, ∀ r ∈ rs, r.listed ≠ none →
        ¬ r.TornBy block := by
      intro block hblock r _ hlisted htorn
      obtain ⟨a, ha⟩ := Option.ne_none_iff_exists'.mp hlisted
      rw [run_torn ha b hin ⟨block, hblock, htorn⟩] at hs
      cases hs
    refine ⟨hwhole, fun r hr a ha => ?_⟩
    obtain ⟨s', hs', hbits⟩ := run_whole b hin hwhole
    rw [hs] at hs'
    cases hs'
    exact (hbits a.bit).mp ((hall a.bit).mpr (.inr ⟨r, hr, a, ha, rfl⟩))
  · rintro ⟨hwhole, hkept⟩
    obtain ⟨s, hs, hbits⟩ := run_whole b hin hwhole
    refine ⟨s, hs, Bitmaps.ext_holds fun bit => ?_⟩
    rw [hbits, hall]
    constructor
    · rintro (hb | ⟨block, -, r, hr, a, ha, hbit, -⟩)
      · exact .inl hb
      · exact .inr ⟨r, hr, a, ha, hbit⟩
    · rintro (hb | ⟨r, hr, a, ha, rfl⟩)
      · exact .inl hb
      · exact hkept r hr a ha

/-- Two ways of cutting a list of records both leave the bitmaps of its whole lines if and only if
neither tears a record and both keep every bit. -/
theorem chunking_iff (b : Bitmaps) (rs : List (Record fromString))
    (cs ds : Segmentation (stream rs)) :
    ∃ b', syncLines fromString b (rs.map Record.line) = some b' ∧
      ((∃ s t, run (syncRead fromString) ⟨b, []⟩ cs.reads = some s ∧
          run (syncRead fromString) ⟨b, []⟩ ds.reads = some t ∧
          s.bitmaps = b' ∧ t.bitmaps = b') ↔
        ReadsKeep b rs (blocks [] cs.reads) ∧ ReadsKeep b rs (blocks [] ds.reads)) := by
  obtain ⟨b', hb', -⟩ := syncLines_records rs b
  refine ⟨b', hb', ?_⟩
  rw [← sync_reads_iff b rs cs hb', ← sync_reads_iff b rs ds hb']
  constructor
  · rintro ⟨s, t, hs, ht, hsb, htb⟩
    exact ⟨⟨s, hs, hsb⟩, t, ht, htb⟩
  · rintro ⟨⟨s, hs, hsb⟩, t, ht, htb⟩
    exact ⟨s, t, hs, ht, hsb, htb⟩

/-- One record, in one read or cut behind `apnic|CN`: the second loader does not know its
address. -/
theorem cut_marker_loses_record :
    ∃ (cs ds : Segmentation (stream [twoBlocks])) (s t : Sync),
      run (syncRead readOne) ⟨.zero, []⟩ cs.reads = some s ∧
      run (syncRead readOne) ⟨.zero, []⟩ ds.reads = some t ∧
      isCn s.bitmaps (.v4 0x01000100#32) = true ∧ isCn t.bitmaps (.v4 0x01000100#32) = false := by
  have hcs : (run (syncRead readOne) ⟨.zero, []⟩ [stream [twoBlocks]]).map
      (fun s => isCn s.bitmaps (.v4 0x01000100#32)) = some true := by decide +kernel
  have hds : (run (syncRead readOne) ⟨.zero, []⟩
      [(stream [twoBlocks]).take 8, (stream [twoBlocks]).drop 8]).map
      (fun s => isCn s.bitmaps (.v4 0x01000100#32)) = some false := by decide +kernel
  obtain ⟨s, hs, hsb⟩ := Option.map_eq_some_iff.mp hcs
  obtain ⟨t, ht, htb⟩ := Option.map_eq_some_iff.mp hds
  exact ⟨⟨_, by decide, by simp⟩, ⟨_, by decide, by simp⟩, s, t, hs, ht, hsb, htb⟩

end Apnic
end Xsky
