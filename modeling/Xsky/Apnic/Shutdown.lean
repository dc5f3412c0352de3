import Xsky.Kit.Runs
import Xsky.Apnic.Member

/-!
# Apnic.Shutdown

`apnic::release` while the thread of `apnic::sync` is under way.

The thread connects, tests `_exit`, reads, and takes line by line what it has read. `release` closes
the two bitmaps, sets `_exit` and only then joins, so a line may be taken for a bitmap that is no
longer mapped. `none` is such an access, or a line the thread does not survive for other reasons;
the reads are of whole records, which exclude the latter.

`release_safe_iff`: whatever has happened before, `release` goes well with every way the thread may
go on if and only if the thread has ended.
-/

namespace Xsky
namespace Apnic

open Kit

inductive LoaderAt where
  | connects
  | tests
  | reads
  | lines
  | ended
deriving DecidableEq

inductive ReleaseAt where
  | idle
  | closedIpv4
  | closedIpv6
  | joins
  | joined
deriving DecidableEq

inductive LoaderStep where
  | connect (established : Bool)
  | test
  | read (bytes : Text)
  | readError
  | line
  | release -- the next statement of `release`

structure Loader where
  place : LoaderAt
  released : ReleaseAt
  buf : Text
  bitmaps : Bitmaps
  exit : Bool

def Loader.start (b : Bitmaps) : Loader := ⟨.connects, .idle, [], b, false⟩

/-- `_ipv4._address` is not null -/
def Loader.ipv4Mapped (s : Loader) : Bool := s.released = .idle

def Loader.ipv6Mapped (s : Loader) : Bool := s.released = .idle ∨ s.released = .closedIpv4

/-- `line[pos]`, for a line with the marker. -/
def lineFamily (line : Text) : Option Char :=
  (Text.find marker line).bind fun p => getElem? line (p + 12)

/-- The bitmap a line is for is mapped. -/
def Loader.writable (s : Loader) (line : Text) : Bool :=
  match lineFamily line with
  | some '4' => s.ipv4Mapped
  | some '6' => s.ipv6Mapped
  | _ => true

def Loader.releaseStep (s : Loader) : Loader :=
  match s.released with
  | .idle => { s with released := .closedIpv4 }
  | .closedIpv4 => { s with released := .closedIpv6 }
  | .closedIpv6 => { s with released := .joins, exit := true }
  | .joins => if s.place = .ended then { s with released := .joined } else s
  | .joined => s

section

variable (fromString : Text → Option Address)

/-- One turn of the inner loop. -/
def Loader.lineStep (s : Loader) : Option Loader :=
  let (line, rest) := Text.getline s.buf
  if line = [] then some { s with place := .tests, buf := rest }
  else
    match syncLine fromString s.bitmaps line with
    | none => none
    | some b => if s.writable line then some { s with buf := rest, bitmaps := b } else none

/-- A step out of turn leaves all as it is. -/
def loaderStep (s : Loader) : LoaderStep → Option Loader
  | .connect established =>
    some (if s.place = .connects then
      { s with place := if established then .tests else .ended } else s)
  | .test =>
    some (if s.place = .tests then { s with place := if s.exit then .ended else .reads } else s)
  | .read bytes =>
    some (if s.place = .reads then { s with place := .lines, buf := s.buf ++ bytes } else s)
  | .readError => some (if s.place = .reads then { s with place := .ended } else s)
  | .line => if s.place = .lines then s.lineStep fromString else some s
  | .release => some s.releaseStep

/-- What is read ends with a record. -/
def LoaderStep.Whole : LoaderStep → Prop
  | .read bytes => ∃ rs : List (Record fromString), bytes = stream rs
  | _ => True

/-- What has been read and not taken is whole records, and none while the thread is elsewhere. -/
structure Loader.Filling (s : Loader) (rs : List (Record fromString)) : Prop where
  buf : s.buf = stream rs
  elsewhere : s.place ≠ .lines → rs = []

end

variable {fromString : Text → Option Address}

/-! ## One line -/

theorem lineFamily_listed {r : Record fromString} {a : Address} (h : r.listed = some a) :
    lineFamily r.line = some (match a with | .v4 _ => '4' | .v6 _ => '6') := by
  obtain ⟨d, hhead, hd⟩ := Record.head_listed h
  have hline : r.line = marker ++ d :: ('|' :: (r.start ++ ['|']) ++
      (r.value ++ '|' :: (r.date ++ '|' :: r.status))) := by
    unfold Record.line
    rw [hhead]
    simp
  have hfind : Text.find marker r.line = some 0 := Text.find_eq_zero ⟨_, hline.symm⟩
  have hget : getElem? r.line 12 = some d := by
    rw [hline, List.getElem?_append_right (by rw [marker_length]), marker_length]
    rfl
  unfold lineFamily
  rw [hfind, Option.bind_some, Nat.zero_add, hget]
  rcases hd with ⟨rfl, ip, rfl⟩ | ⟨rfl, bytes, rfl⟩
  · rfl
  · rfl

theorem writable_before {s : Loader} (h : s.released = .idle) (line : Text) :
    s.writable line = true := by
  unfold Loader.writable Loader.ipv4Mapped Loader.ipv6Mapped
  split <;> simp [h]

/-- With both bitmaps closed no CN record of an address is taken. -/
theorem not_writable {s : Loader} (h : s.released = .closedIpv6) {r : Record fromString}
    {a : Address} (ha : r.listed = some a) : s.writable r.line = false := by
  unfold Loader.writable Loader.ipv4Mapped Loader.ipv6Mapped
  rw [lineFamily_listed ha]
  cases a with
  | v4 ip => simp [h]
  | v6 bytes => simp [h]

theorem lineStep_done {s : Loader} (h : s.buf = stream ([] : List (Record fromString))) :
    s.lineStep fromString = some { s with place := .tests, buf := [] } := by
  unfold Loader.lineStep
  rw [h]
  rfl

theorem lineStep_record {s : Loader} {r : Record fromString} {rs : List (Record fromString)}
    (h : s.buf = stream (r :: rs)) :
    ∃ b, s.lineStep fromString =
      if s.writable r.line then some { s with buf := stream rs, bitmaps := b } else none := by
  obtain ⟨b, hb⟩ : ∃ b, syncLine fromString s.bitmaps r.line = some b := ⟨_, syncLine_line _ r⟩
  refine ⟨b, ?_⟩
  have hline : Text.getline s.buf = (r.line, stream rs) := by
    rw [h]
    unfold stream
    rw [List.map_cons, Text.unlines_cons]
    exact Text.getline_newline _ r.newline_not_mem
  unfold Loader.lineStep
  simp only [hline, if_neg r.line_ne_nil, hb]

/-! ## Before release -/

theorem filling_start (b : Bitmaps) : (Loader.start b).Filling fromString [] :=
  ⟨rfl, fun _ => rfl⟩

/-- A step of the thread, with the bitmaps mapped. -/
theorem Loader.Filling.step {s : Loader} {rs : List (Record fromString)}
    (h : s.Filling fromString rs) (hidle : s.released = .idle) {i : LoaderStep}
    (hwhole : i.Whole fromString) (hthread : i ≠ .release) :
    ∃ s' rs', loaderStep fromString s i = some s' ∧ s'.Filling fromString rs' ∧
      s'.released = .idle ∧ s'.exit = s.exit := by
  cases i with
  | connect established =>
    by_cases hat : s.place = .connects
    · have hrs := h.elsewhere (by simp [hat])
      refine ⟨_, rs, rfl, ⟨?_, fun _ => hrs⟩, ?_, ?_⟩
      all_goals simp [hat, h.buf, hidle]
    · exact ⟨s, rs, by simp [loaderStep, hat], h, hidle, rfl⟩
  | test =>
    by_cases hat : s.place = .tests
    · have hrs := h.elsewhere (by simp [hat])
      refine ⟨_, rs, rfl, ⟨?_, fun _ => hrs⟩, ?_, ?_⟩
      all_goals simp [hat, h.buf, hidle]
    · exact ⟨s, rs, by simp [loaderStep, hat], h, hidle, rfl⟩
  | read bytes =>
    by_cases hat : s.place = .reads
    · obtain ⟨rs', rfl⟩ := hwhole
      have hrs := h.elsewhere (by simp [hat])
      refine ⟨_, rs', rfl, ⟨?_, fun hlines => ?_⟩, ?_, ?_⟩
      · simp [hat, h.buf, hrs, stream, Text.unlines]
      · simp [hat] at hlines
      · simp [hat, hidle]
      · simp [hat]
    · exact ⟨s, rs, by simp [loaderStep, hat], h, hidle, rfl⟩
  | readError =>
    by_cases hat : s.place = .reads
    · have hrs := h.elsewhere (by simp [hat])
      refine ⟨_, rs, rfl, ⟨?_, fun _ => hrs⟩, ?_, ?_⟩
      all_goals simp [hat, h.buf, hidle]
    · exact ⟨s, rs, by simp [loaderStep, hat], h, hidle, rfl⟩
  | line =>
    by_cases hat : s.place = .lines
    · simp only [loaderStep, if_pos hat]
      cases rs with
      | nil =>
        rw [lineStep_done h.buf]
        exact ⟨_, [], rfl, ⟨rfl, fun _ => rfl⟩, hidle, rfl⟩
      | cons r rs =>
        obtain ⟨b, hb⟩ := lineStep_record h.buf
        rw [hb, if_pos (writable_before hidle r.line)]
        exact ⟨_, rs, rfl, ⟨rfl, fun hlines => absurd hat hlines⟩, hidle, rfl⟩
    · exact ⟨s, rs, by simp [loaderStep, hat], h, hidle, rfl⟩
  | release => exact absurd rfl hthread

theorem Loader.Filling.run {is : List LoaderStep} :
    ∀ {s : Loader} {rs : List (Record fromString)}, s.Filling fromString rs → s.released = .idle →
      (∀ i ∈ is, i.Whole fromString ∧ i ≠ .release) →
      ∃ s' rs', Kit.run (loaderStep fromString) s is = some s' ∧ s'.Filling fromString rs' ∧
        s'.released = .idle ∧ s'.exit = s.exit := by
  induction is with
  | nil =>
    intro s rs h hidle _
    exact ⟨s, rs, rfl, h, hidle, rfl⟩
  | cons i is ih =>
    intro s rs h hidle hsteps
    obtain ⟨hwhole, hthread⟩ := hsteps i (by simp)
    obtain ⟨s1, rs1, hs1, h1, hidle1, hexit1⟩ := h.step hidle hwhole hthread
    obtain ⟨s', rs', hs', h', hidle', hexit'⟩ := ih h1 hidle1 fun j hj => hsteps j (by simp [hj])
    exact ⟨s', rs', by rw [run_cons hs1, hs'], h', hidle', hexit'.trans hexit1⟩

/-! ## Behind release -/

/-- When the thread has ended there is nothing to disturb. -/
theorem run_ended {js : List LoaderStep} :
    ∀ {s : Loader}, s.place = .ended → ∃ s', run (loaderStep fromString) s js = some s' := by
  induction js with
  | nil =>
    intro s _
    exact ⟨s, rfl⟩
  | cons j js ih =>
    intro s hended
    have hstep : ∃ s', loaderStep fromString s j = some s' ∧ s'.place = .ended := by
      cases j with
      | connect established => exact ⟨s, by simp [loaderStep, hended], hended⟩
      | test => exact ⟨s, by simp [loaderStep, hended], hended⟩
      | read bytes => exact ⟨s, by simp [loaderStep, hended], hended⟩
      | readError => exact ⟨s, by simp [loaderStep, hended], hended⟩
      | line => exact ⟨s, by simp [loaderStep, hended], hended⟩
      | release =>
        refine ⟨s.releaseStep, rfl, ?_⟩
        unfold Loader.releaseStep
        split <;> simp [hended]
    obtain ⟨s1, hs1, h1⟩ := hstep
    obtain ⟨s', hs'⟩ := ih h1
    exact ⟨s', by rw [run_cons hs1, hs']⟩

/-- The thread between the closing of the bitmaps and `_exit = true`. -/
structure Unmapped (s : Loader) : Prop where
  released : s.released = .closedIpv6
  exit : s.exit = false

/-- One record more is read and taken. -/
theorem unmapped_reads {r : Record fromString} {a : Address} (ha : r.listed = some a) {s : Loader}
    (h : Unmapped s) (hat : s.place = .reads) (hbuf : s.buf = []) :
    run (loaderStep fromString) s [.read (stream [r]), .line] = none := by
  obtain ⟨b, hb⟩ := @lineStep_record fromString { s with place := .lines, buf := stream [r] } r []
    rfl
  have hclosed : ({ s with place := .lines, buf := stream [r] } : Loader).writable r.line = false :=
    not_writable h.released ha
  rw [hclosed] at hb
  simp [run, loaderStep, hat, hbuf, hb]

theorem unmapped_tests {r : Record fromString} {a : Address} (ha : r.listed = some a) {s : Loader}
    (h : Unmapped s) (hat : s.place = .tests) (hbuf : s.buf = []) :
    run (loaderStep fromString) s [.test, .read (stream [r]), .line] = none := by
  have hstep : loaderStep fromString s .test = some { s with place := .reads } := by
    simp [loaderStep, hat, h.exit]
  rw [run_cons hstep]
  exact unmapped_reads ha ⟨h.released, h.exit⟩ rfl hbuf

/-- What is in the buffer is taken first, if it can be. -/
theorem unmapped_lines {r : Record fromString} {a : Address} (ha : r.listed = some a)
    {rs : List (Record fromString)} :
    ∀ {s : Loader}, Unmapped s → s.place = .lines → s.buf = stream rs →
      run (loaderStep fromString) s
        (List.replicate (rs.length + 1) .line ++ [.test, .read (stream [r]), .line]) = none := by
  induction rs with
  | nil =>
    intro s h hat hbuf
    have hstep : loaderStep fromString s .line = some { s with place := .tests, buf := [] } := by
      simp only [loaderStep, if_pos hat]
      exact lineStep_done hbuf
    exact (run_cons hstep).trans (unmapped_tests ha ⟨h.released, h.exit⟩ rfl rfl)
  | cons r' rs ih =>
    intro s h hat hbuf
    obtain ⟨b, hb⟩ := lineStep_record hbuf
    rw [List.length_cons, List.replicate_succ, List.cons_append]
    by_cases hmapped : s.writable r'.line = true
    · have hstep : loaderStep fromString s .line =
          some { s with buf := stream rs, bitmaps := b } := by
        simp only [loaderStep, if_pos hat, hb, if_pos hmapped]
      rw [run_cons hstep]
      exact ih ⟨h.released, h.exit⟩ hat rfl
    · have hstep : loaderStep fromString s .line = none := by
        simp only [loaderStep, if_pos hat, hb, if_neg hmapped]
      unfold run
      rw [hstep]

/-- The thread that has not ended can be led into a bitmap that is closed. -/
theorem unmapped_faults {r : Record fromString} {a : Address} (ha : r.listed = some a) {s : Loader}
    {rs : List (Record fromString)} (h : Unmapped s) (hfill : s.Filling fromString rs)
    (hnot : s.place ≠ .ended) :
    ∃ js, (∀ j ∈ js, j.Whole fromString) ∧ run (loaderStep fromString) s js = none := by
  have hread : LoaderStep.Whole fromString (.read (stream [r])) := ⟨[r], rfl⟩
  have hempty : s.place ≠ .lines → s.buf = [] := by
    intro hlines
    rw [hfill.buf, hfill.elsewhere hlines]
    rfl
  cases hat : s.place with
  | connects =>
    have hstep : loaderStep fromString s (.connect true) = some { s with place := .tests } := by
      simp [loaderStep, hat]
    refine ⟨[.connect true, .test, .read (stream [r]), .line], ?_, ?_⟩
    · simp [LoaderStep.Whole]
    · rw [run_cons hstep]
      exact unmapped_tests ha ⟨h.released, h.exit⟩ rfl (hempty (by simp [hat]))
  | tests =>
    refine ⟨[.test, .read (stream [r]), .line], ?_, unmapped_tests ha h hat (hempty ?_)⟩
    · simp [LoaderStep.Whole]
    · simp [hat]
  | reads =>
    refine ⟨[.read (stream [r]), .line], ?_, unmapped_reads ha h hat (hempty ?_)⟩
    · simp [LoaderStep.Whole]
    · simp [hat]
  | lines =>
    refine ⟨_, ?_, unmapped_lines ha h hat hfill.buf⟩
    intro j hj
    rcases List.mem_append.mp hj with hj | hj
    · rw [(List.mem_replicate.mp hj).2]
      trivial
    · simp only [List.mem_cons, List.not_mem_nil, or_false] at hj
      rcases hj with rfl | rfl | rfl
      · trivial
      · exact hread
      · trivial
  | ended => exact absurd hat hnot

/-- The list has at least one CN record of an address. -/
theorem release_safe_iff (b : Bitmaps) (is : List LoaderStep)
    (hsteps : ∀ i ∈ is, i.Whole fromString ∧ i ≠ .release)
    (hlisted : ∃ r : Record fromString, ∃ a, r.listed = some a) :
    ∃ s, run (loaderStep fromString) (.start b) is = some s ∧
      ((∀ js, (∀ j ∈ js, j.Whole fromString) →
          ∃ s', run (loaderStep fromString) s (.release :: js) = some s') ↔
        s.place = .ended) := by
  obtain ⟨s, rs, hs, hfill, hidle, hexit⟩ := (filling_start b).run rfl hsteps
  refine ⟨s, hs, fun hsafe => ?_, fun hended js _ => run_ended hended⟩
  obtain ⟨r, a, ha⟩ := hlisted
  refine Decidable.byContradiction fun hnot => ?_
  have hunmapped : Unmapped { s with released := .closedIpv6 } := ⟨rfl, hexit⟩
  obtain ⟨js, hjs, hfault⟩ := unmapped_faults ha hunmapped ⟨hfill.buf, hfill.elsewhere⟩ hnot
  obtain ⟨s', hs'⟩ := hsafe (.release :: js) fun j hj => by
    rcases List.mem_cons.mp hj with rfl | hj
    · trivial
    · exact hjs j hj
  have hrun : run (loaderStep fromString) s (.release :: .release :: js) =
      run (loaderStep fromString) { s with released := .closedIpv6 } js := by
    simp [run, loaderStep, Loader.releaseStep, hidle]
  rw [hrun, hfault] at hs'
  cases hs'

/-- In the middle of a list. -/
theorem release_safe_reading :
    ∃ s, run (loaderStep readOne) (.start .zero)
        [.connect true, .test, .read (stream [twoBlocks])] = some s ∧
      ((∀ js, (∀ j ∈ js, j.Whole readOne) →
          ∃ s', run (loaderStep readOne) s (.release :: js) = some s') ↔
        s.place = .ended) := by
  refine release_safe_iff .zero _ (fun i hi => ?_) ⟨twoBlocks, _, rfl⟩
  simp only [List.mem_cons, List.not_mem_nil, or_false] at hi
  rcases hi with rfl | rfl | rfl
  · exact ⟨trivial, by simp⟩
  · exact ⟨trivial, by simp⟩
  · exact ⟨⟨[twoBlocks], rfl⟩, by simp⟩

end Apnic
end Xsky
