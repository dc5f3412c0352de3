import Xsky.Client.Entries

/-!
# Client.Servers

The rows of `client/ServerListDialog.cpp`, the array they are stored as, and which of them is
checked.

The check boxes are in one exclusive group, so at most one row is checked. It is not stored: the
constructor checks the row whose address is that of the server in use, and the last one if there are
several. `servers_return_iff` says when a dialog that was accepted comes back as it was, and
`untouched_accept` that one which nobody touched leaves the controller as it is and opens again the
same. `QChar::digitValue` and `QString::toInt` are parameters. Taking a row out is left out.
-/

namespace Xsky
namespace Client

open Kit Text

/-- An element of the array `Servers`; a value that is missing is `none`. -/
structure ServerEntry where
  ip : Option Text
  port : Option (BitVec 32)
  desc : Option Text

/-- The texts in the columns 0 to 2. -/
structure ServerRow where
  ip : Text
  port : Text
  desc : Text
deriving DecidableEq

/-- `QString( "%1:%2" ).arg( item->text( 0 ) ).arg( item->text( 1 ) )` -/
def ServerRow.endpoint (v : DigitValue) (row : ServerRow) : String :=
  String.ofList (arg v (arg v "%1:%2".toList row.ip row.ip) row.port row.port)

/-- The rows, and the checked button of `button_group`. -/
@[ext] structure ServerListDialog where
  rows : List ServerRow
  checked : Option Nat
  checked_lt : ∀ i ∈ checked, i < rows.length

/-- The controller with its group of `config.ini`, and the array beside that. -/
structure Application where
  controller : Controller
  servers : Slots ServerEntry

section

variable (toJson : JsonObject → List Byte) (v : DigitValue) (toInt : Text → BitVec 32)

def ServerEntry.row (e : ServerEntry) : ServerRow :=
  ⟨e.ip.getD [], decimal (e.port.getD 0).toInt, e.desc.getD []⟩

def ServerRow.entry (row : ServerRow) : ServerEntry :=
  ⟨some row.ip, some (toInt row.port), some row.desc⟩

/-- The constructor's loop over the check boxes: `setChecked` takes the check from any before. -/
def checkedAfter (select : String) : Nat → List ServerRow → Option Nat → Option Nat
  | _, [], checked => checked
  | i, row :: rows, checked =>
    checkedAfter select (i + 1) rows (if row.endpoint v = select then some i else checked)

/-- The row at `k` is of this endpoint, and none behind it is. -/
def LastWith (select : String) (rows : List ServerRow) (k : Nat) : Prop :=
  (∃ row, rows[k]? = some row ∧ row.endpoint v = select) ∧
    ∀ j row, k < j → rows[j]? = some row → row.endpoint v ≠ select

variable {v}

theorem checkedAfter_none {select : String} {rows : List ServerRow}
    (h : ∀ row ∈ rows, row.endpoint v ≠ select) (i : Nat) (checked : Option Nat) :
    checkedAfter v select i rows checked = checked := by
  induction rows generalizing i checked with
  | nil => rfl
  | cons row rows ih =>
    unfold checkedAfter
    rw [if_neg (h row (by simp))]
    exact ih (fun r hr => h r (by simp [hr])) (i + 1) checked

theorem checkedAfter_last {select : String} {rows : List ServerRow} {k : Nat}
    (h : LastWith v select rows k) (i : Nat) (checked : Option Nat) :
    checkedAfter v select i rows checked = some (i + k) := by
  induction rows generalizing i k checked with
  | nil =>
    obtain ⟨⟨row, hrow, -⟩, -⟩ := h
    cases hrow
  | cons row rows ih =>
    unfold checkedAfter
    cases k with
    | zero =>
      obtain ⟨⟨row', hrow, hselect⟩, hlater⟩ := h
      cases hrow
      rw [if_pos hselect]
      refine checkedAfter_none (fun r hr => ?_) (i + 1) (some i)
      obtain ⟨j, hj⟩ := List.getElem?_of_mem hr
      exact hlater (j + 1) r (Nat.succ_pos j) (by rw [List.getElem?_cons_succ, hj])
    | succ k =>
      have hrest : LastWith v select rows k := by
        obtain ⟨hrow, hlater⟩ := h
        rw [List.getElem?_cons_succ] at hrow
        refine ⟨hrow, fun j r hj hr => hlater (j + 1) r (by omega) ?_⟩
        rw [List.getElem?_cons_succ, hr]
      rw [ih hrest, Nat.add_assoc, Nat.add_comm 1 k]

/-- Either no row has the endpoint, or there is a last one. -/
theorem none_or_last (select : String) (rows : List ServerRow) :
    (∀ row ∈ rows, row.endpoint v ≠ select) ∨ ∃ k, LastWith v select rows k := by
  induction rows with
  | nil => exact .inl fun row hrow => by cases hrow
  | cons row rows ih =>
    rcases ih with hnone | ⟨k, ⟨r, hr, hselect⟩, hlater⟩
    · by_cases hrow : row.endpoint v = select
      · refine .inr ⟨0, ⟨row, rfl, hrow⟩, fun j r hj hr => ?_⟩
        obtain ⟨j, rfl⟩ := Nat.exists_eq_succ_of_ne_zero (Nat.ne_of_gt hj)
        rw [List.getElem?_cons_succ] at hr
        exact hnone r (List.mem_of_getElem? hr)
      · refine .inl fun r hr => ?_
        rcases List.mem_cons.mp hr with rfl | hr
        · exact hrow
        · exact hnone r hr
    · refine .inr ⟨k + 1, ⟨r, by rw [List.getElem?_cons_succ, hr], hselect⟩, fun j r hj hr => ?_⟩
      obtain ⟨j, rfl⟩ := Nat.exists_eq_succ_of_ne_zero (Nat.ne_of_gt (Nat.lt_of_le_of_lt
        (Nat.zero_le _) hj))
      rw [List.getElem?_cons_succ] at hr
      exact hlater j r (by omega) hr

theorem LastWith.lt {select : String} {rows : List ServerRow} {k : Nat}
    (h : LastWith v select rows k) : k < rows.length := by
  obtain ⟨⟨row, hrow, -⟩, -⟩ := h
  exact (List.getElem?_eq_some_iff.mp hrow).1

theorem checkedAfter_lt {select : String} {rows : List ServerRow} {i : Nat}
    (h : i ∈ checkedAfter v select 0 rows none) : i < rows.length := by
  rcases none_or_last select rows with hnone | ⟨k, hlast⟩
  · rw [checkedAfter_none hnone] at h
    cases h
  · rw [checkedAfter_last hlast, Option.mem_some_iff, Nat.zero_add] at h
    rw [← h]
    exact hlast.lt

variable (v)

namespace ServerListDialog

/-- The constructor. -/
def new (a : Application) : ServerListDialog where
  rows := (a.servers.read ⟨none, none, none⟩).map ServerEntry.row
  checked := checkedAfter v a.controller.p.server 0
    ((a.servers.read ⟨none, none, none⟩).map ServerEntry.row) none
  checked_lt _ := checkedAfter_lt

/-- One turn after the other, from the row at `i` on. -/
def acceptLoop (checked : Option Nat) : Nat → List ServerRow → Application → Application
  | _, [], a => a
  | i, row :: rows, a =>
    let servers := a.servers.setValue i (row.entry toInt)
    let controller :=
      if checked = some i then setServer toJson a.controller (row.endpoint v) else a.controller
    acceptLoop checked (i + 1) rows ⟨controller, servers⟩

def onPushButtonAcceptClicked (d : ServerListDialog) (a : Application) : Application :=
  let b := acceptLoop toJson v toInt d.checked 0 d.rows a
  { b with servers := { b.servers with size := d.rows.length } }

end ServerListDialog

variable {toJson v toInt}

/-! ## What is stored -/

namespace ServerListDialog

theorem acceptLoop_servers (checked : Option Nat) (rows : List ServerRow) (i : Nat)
    (a : Application) :
    (acceptLoop toJson v toInt checked i rows a).servers =
      a.servers.fillFrom i (rows.map (ServerRow.entry toInt)) := by
  induction rows generalizing i a with
  | nil => rfl
  | cons row rows ih =>
    unfold acceptLoop
    rw [ih]
    rfl

/-- The rows checked before are passed. -/
theorem acceptLoop_passed {checked : Option Nat} {rows : List ServerRow} {i : Nat}
    (h : ∀ k ∈ checked, k < i) (a : Application) :
    (acceptLoop toJson v toInt checked i rows a).controller = a.controller := by
  induction rows generalizing i a with
  | nil => rfl
  | cons row rows ih =>
    have hnot : checked ≠ some i := by
      intro hi
      exact absurd (h i hi) (Nat.lt_irrefl i)
    unfold acceptLoop
    rw [ih fun k hk => Nat.lt_succ_of_lt (h k hk)]
    simp only [if_neg hnot]

theorem acceptLoop_checked {rows : List ServerRow} {i k : Nat} {row : ServerRow}
    (h : rows[k]? = some row) (a : Application) :
    (acceptLoop toJson v toInt (some (i + k)) i rows a).controller =
      setServer toJson a.controller (row.endpoint v) := by
  induction rows generalizing i k a with
  | nil => cases h
  | cons first rows ih =>
    unfold acceptLoop
    cases k with
    | zero =>
      cases h
      rw [acceptLoop_passed]
      · simp only [Nat.add_zero, if_true]
      · intro k hk
        cases hk
        exact Nat.lt_succ_self _
    | succ k =>
      rw [List.getElem?_cons_succ] at h
      have hnot : some (i + (k + 1)) ≠ some i := by
        rw [Ne, Option.some.injEq]
        omega
      have hplace : i + (k + 1) = i + 1 + k := by omega
      simp only [if_neg hnot]
      rw [hplace]
      exact ih h ⟨a.controller, _⟩

theorem accept_servers (d : ServerListDialog) (a : Application) :
    (d.onPushButtonAcceptClicked toJson v toInt a).servers =
      a.servers.write (d.rows.map (ServerRow.entry toInt)) := by
  unfold onPushButtonAcceptClicked Slots.write
  simp only [acceptLoop_servers, List.length_map]

theorem accept_controller (d : ServerListDialog) (a : Application) :
    (d.onPushButtonAcceptClicked toJson v toInt a).controller =
      (acceptLoop toJson v toInt d.checked 0 d.rows a).controller := rfl

theorem accept_none {d : ServerListDialog} (h : d.checked = none) (a : Application) :
    (d.onPushButtonAcceptClicked toJson v toInt a).controller = a.controller := by
  rw [accept_controller, h]
  exact acceptLoop_passed (fun k hk => by cases hk) a

theorem accept_some {d : ServerListDialog} {k : Nat} {row : ServerRow} (h : d.checked = some k)
    (hrow : d.rows[k]? = some row) (a : Application) :
    (d.onPushButtonAcceptClicked toJson v toInt a).controller =
      setServer toJson a.controller (row.endpoint v) := by
  rw [accept_controller, h, ← Nat.zero_add k]
  exact acceptLoop_checked hrow a

end ServerListDialog

theorem setServer_server (c : Controller) (endpoint : String) :
    (setServer toJson c endpoint).p.server = endpoint := by
  unfold setServer
  split
  · rfl
  · rename_i h
    exact not_not.mp h

theorem setServer_same (c : Controller) : setServer toJson c c.p.server = c := by
  unfold setServer
  rw [if_neg (not_not.mpr rfl)]

/-- What the port becomes on the way through the array. -/
def ServerRow.stored (toInt : Text → BitVec 32) (row : ServerRow) : ServerRow :=
  { row with port := decimal (toInt row.port).toInt }

theorem stored_eq_iff (row : ServerRow) :
    row.stored toInt = row ↔ decimal (toInt row.port).toInt = row.port := by
  constructor
  · intro h
    exact congrArg ServerRow.port h
  · intro h
    unfold ServerRow.stored
    rw [h]

theorem new_rows (d : ServerListDialog) (a : Application) :
    (ServerListDialog.new v (d.onPushButtonAcceptClicked toJson v toInt a)).rows =
      d.rows.map (ServerRow.stored toInt) := by
  unfold ServerListDialog.new
  simp only [ServerListDialog.accept_servers, Slots.write_read, List.map_map]
  rfl

theorem map_stored_iff (rows : List ServerRow) :
    rows.map (ServerRow.stored toInt) = rows ↔
      ∀ row ∈ rows, decimal (toInt row.port).toInt = row.port := by
  induction rows with
  | nil => simp
  | cons row rows ih =>
    rw [List.map_cons, List.cons.injEq, List.forall_mem_cons, ih, stored_eq_iff]

/-! ## What is checked -/

/-- The row checked is the last one of its endpoint; if none is, no row is of the server in use. -/
def ServerListDialog.Shows (v : DigitValue) (d : ServerListDialog) (server : String) : Prop :=
  match d.checked with
  | some k => ∀ row, d.rows[k]? = some row → LastWith v (row.endpoint v) d.rows k
  | none => ∀ row ∈ d.rows, row.endpoint v ≠ server

theorem checked_iff_shows (d : ServerListDialog) (a : Application) :
    checkedAfter v (d.onPushButtonAcceptClicked toJson v toInt a).controller.p.server 0 d.rows
      none = d.checked ↔ d.Shows v a.controller.p.server := by
  cases hchecked : d.checked with
  | none =>
    unfold ServerListDialog.Shows
    simp only [hchecked, ServerListDialog.accept_none hchecked]
    constructor
    · intro h
      rcases none_or_last a.controller.p.server d.rows with hnone | ⟨k, hlast⟩
      · exact hnone
      · rw [checkedAfter_last hlast] at h
        cases h
    · intro h
      exact checkedAfter_none h 0 none
  | some k =>
    obtain ⟨row, hrow⟩ : ∃ row, d.rows[k]? = some row :=
      ⟨_, List.getElem?_eq_getElem (d.checked_lt k hchecked)⟩
    unfold ServerListDialog.Shows
    simp only [hchecked, ServerListDialog.accept_some hchecked hrow, setServer_server, hrow,
      Option.some.injEq, forall_eq']
    constructor
    · intro h
      rcases none_or_last (row.endpoint v) d.rows with hnone | ⟨j, hlast⟩
      · exact absurd rfl (hnone row (List.mem_of_getElem? hrow))
      · rw [checkedAfter_last hlast, Nat.zero_add] at h
        cases h
        exact hlast
    · intro h
      rw [checkedAfter_last h, Nat.zero_add]

theorem new_checked_of_rows {d : ServerListDialog} {a : Application}
    (hports : ∀ row ∈ d.rows, decimal (toInt row.port).toInt = row.port) :
    (ServerListDialog.new v (d.onPushButtonAcceptClicked toJson v toInt a)).checked =
      checkedAfter v (d.onPushButtonAcceptClicked toJson v toInt a).controller.p.server 0 d.rows
        none := by
  have hrows := @new_rows toJson v toInt d a
  rw [(map_stored_iff d.rows).mpr hports] at hrows
  have hsame : (ServerListDialog.new v (d.onPushButtonAcceptClicked toJson v toInt a)).checked =
      checkedAfter v (d.onPushButtonAcceptClicked toJson v toInt a).controller.p.server 0
        (ServerListDialog.new v (d.onPushButtonAcceptClicked toJson v toInt a)).rows none := rfl
  rw [hsame, hrows]

theorem new_of_shows {d : ServerListDialog} {a : Application}
    (hports : ∀ row ∈ d.rows, decimal (toInt row.port).toInt = row.port)
    (hshows : d.Shows v a.controller.p.server) :
    ServerListDialog.new v (d.onPushButtonAcceptClicked toJson v toInt a) = d := by
  have hrows := @new_rows toJson v toInt d a
  rw [(map_stored_iff d.rows).mpr hports] at hrows
  refine ServerListDialog.ext hrows ?_
  rw [new_checked_of_rows hports]
  exact (checked_iff_shows d a).mpr hshows

/-- Opened again behind an accept, the dialog is as it was if and only if every port is the decimal
text of its number and the row checked would be checked by its endpoint. -/
theorem servers_return_iff (d : ServerListDialog) (a : Application) :
    ServerListDialog.new v (d.onPushButtonAcceptClicked toJson v toInt a) = d ↔
      (∀ row ∈ d.rows, decimal (toInt row.port).toInt = row.port) ∧
        d.Shows v a.controller.p.server := by
  constructor
  · intro h
    have hrows := @new_rows toJson v toInt d a
    have hchecked := congrArg ServerListDialog.checked h
    rw [h] at hrows
    have hports := (map_stored_iff d.rows).mp hrows.symm
    rw [new_checked_of_rows hports] at hchecked
    exact ⟨hports, (checked_iff_shows d a).mp hchecked⟩
  · rintro ⟨hports, hshows⟩
    exact new_of_shows hports hshows

/-! ## A dialog as it was opened -/

theorem new_port (hint : ∀ n : BitVec 32, toInt (decimal n.toInt) = n) (a : Application) :
    ∀ row ∈ (ServerListDialog.new v a).rows, decimal (toInt row.port).toInt = row.port := by
  intro row hrow
  obtain ⟨e, -, rfl⟩ := List.mem_map.mp hrow
  simp only [ServerEntry.row, hint]

theorem new_checked (a : Application) :
    ((ServerListDialog.new v a).checked = none ∧
        ∀ row ∈ (ServerListDialog.new v a).rows, row.endpoint v ≠ a.controller.p.server) ∨
      ∃ k, (ServerListDialog.new v a).checked = some k ∧
        LastWith v a.controller.p.server (ServerListDialog.new v a).rows k := by
  rcases none_or_last a.controller.p.server (ServerListDialog.new v a).rows with hnone | ⟨k, hlast⟩
  · exact .inl ⟨checkedAfter_none hnone 0 none, hnone⟩
  · refine .inr ⟨k, ?_, hlast⟩
    have h := checkedAfter_last hlast 0 none
    rw [Nat.zero_add] at h
    exact h

/-- Accepted as it was opened, the dialog leaves the controller alone, writes the rows it shows over
the array, and opens again the same. -/
theorem untouched_accept (hint : ∀ n : BitVec 32, toInt (decimal n.toInt) = n) (a : Application) :
    let b := (ServerListDialog.new v a).onPushButtonAcceptClicked toJson v toInt a
    b.controller = a.controller ∧
      b.servers = a.servers.write ((ServerListDialog.new v a).rows.map (ServerRow.entry toInt)) ∧
      ServerListDialog.new v b = ServerListDialog.new v a := by
  intro b
  have hservers := @ServerListDialog.accept_servers toJson v toInt (ServerListDialog.new v a) a
  rcases new_checked a with ⟨hchecked, hnone⟩ | ⟨k, hchecked, hlast⟩
  · refine ⟨ServerListDialog.accept_none hchecked a, hservers, ?_⟩
    refine new_of_shows (new_port hint a) ?_
    unfold ServerListDialog.Shows
    rw [hchecked]
    exact hnone
  · obtain ⟨row, hrow, hselect⟩ := hlast.1
    refine ⟨?_, hservers, new_of_shows (new_port hint a) ?_⟩
    · show ((ServerListDialog.new v a).onPushButtonAcceptClicked toJson v toInt a).controller = _
      rw [ServerListDialog.accept_some hchecked hrow, hselect, setServer_same]
    · unfold ServerListDialog.Shows
      rw [hchecked]
      intro row' hrow'
      rw [hrow] at hrow'
      cases hrow'
      rw [hselect]
      exact hlast

end

/-- `QString::toInt`, as far as the texts of numbers go. -/
def readPort : Text → BitVec 32
  | '-' :: digits => BitVec.ofInt 32 (-Nat.ofDigitChars 10 digits 0)
  | digits => BitVec.ofInt 32 (Nat.ofDigitChars 10 digits 0)

theorem readPort_decimal (n : BitVec 32) : readPort (decimal n.toInt) = n := by
  have hread : readPort (decimal n.toInt) = BitVec.ofInt 32 n.toInt := by
    cases n.toInt with
    | ofNat m =>
      unfold decimal readPort
      split
      · rename_i digits hminus
        have hmem : '-' ∈ Nat.toDigits 10 m := by
          rw [show Nat.toDigits 10 m = '-' :: digits from hminus]
          exact List.mem_cons_self
        cases Nat.isDigit_of_mem_toDigits (by omega) (by omega) hmem
      · rw [Nat.ofDigitChars_ten_toDigits]
        rfl
    | negSucc m =>
      unfold decimal readPort
      simp only [Nat.ofDigitChars_ten_toDigits]
      rfl
  rw [hread, BitVec.ofInt_toInt]

/-- The server in use, once with a description and once without. -/
def twoServers : Application where
  controller := { Controller.fresh ⟨none, none, .empty, .empty, .empty⟩ with
    p := { Private.init with server := "10.0.0.1:48888" } }
  servers := Slots.empty.write [⟨some "10.0.0.1".toList, some 48888, some "home".toList⟩,
    ⟨some "10.0.0.1".toList, some 48888, none⟩]

theorem untouched_accept_two :
    let b := (ServerListDialog.new asciiDigits twoServers).onPushButtonAcceptClicked (fun _ => [])
      asciiDigits readPort twoServers
    b.controller = twoServers.controller ∧
      b.servers = twoServers.servers.write
        ((ServerListDialog.new asciiDigits twoServers).rows.map (ServerRow.entry readPort)) ∧
      ServerListDialog.new asciiDigits b = ServerListDialog.new asciiDigits twoServers :=
  untouched_accept readPort_decimal twoServers

end Client
end Xsky
