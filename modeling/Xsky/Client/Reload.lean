import Xsky.Client.RoundTrip

/-!
# Client.Reload

`ReadConfig` on empty data, as the constructor calls it and as an empty datagram makes it called.

It appends the lists of `config.ini` to those in memory. `reload_exact`: a run in which every reload
should leave what is stored is one in which it does if and only if all lists are empty before each
reload.
-/

namespace Xsky
namespace Client

open Kit

inductive ConfigCall where
  | setter (call : SetterCall)
  | write
  | datagram (data : List Byte)

/-- What is stored, with the defaults for what is not. -/
def stored (ini : IniGroup) : Private where
  isStart := ini.start.getD false
  server := ini.server.getD serverDefault
  domains := ini.domains.read ""
  devices := ini.devices.read ""
  protocols := ini.protocols.read ""

section Steps

variable (toJson : JsonObject → List Byte) (fromJson : List Byte → JsonObject)

def configStep (c : Controller) : ConfigCall → Option Controller
  | .setter call => setterStep toJson c call
  | .write => some (writeConfig toJson c).2
  | .datagram data => some (readConfig fromJson c data)

/-- The same, where a reload leaves what is stored, whatever there was before. -/
def reloadingStep (c : Controller) : ConfigCall → Option Controller
  | .datagram [] => some { c with p := stored c.ini }
  | call => configStep toJson fromJson c call

/-- No list has an entry before a reload. -/
def ListsEmpty (c : Controller) : ConfigCall → Prop
  | .datagram [] => c.p.domains = [] ∧ c.p.devices = [] ∧ c.p.protocols = []
  | _ => True

variable {toJson fromJson}

theorem readConfig_empty (c : Controller) :
    readConfig fromJson c [] =
      { c with
        p := { stored c.ini with
          domains := c.p.domains ++ (stored c.ini).domains
          devices := c.p.devices ++ (stored c.ini).devices
          protocols := c.p.protocols ++ (stored c.ini).protocols } } := rfl

/-- One call. -/
theorem configStep_eq_iff (c : Controller) (call : ConfigCall) :
    configStep toJson fromJson c call = reloadingStep toJson fromJson c call ↔
      ListsEmpty c call := by
  cases call with
  | setter call => exact iff_of_true rfl trivial
  | write => exact iff_of_true rfl trivial
  | datagram data =>
    cases data with
    | cons b data => exact iff_of_true rfl trivial
    | nil =>
      simp only [configStep, reloadingStep, readConfig_empty, ListsEmpty, Option.some.injEq]
      constructor
      · intro h
        have hp := congrArg Controller.p h
        have hdomains := congrArg Private.domains hp
        have hdevices := congrArg Private.devices hp
        have hprotocols := congrArg Private.protocols hp
        exact ⟨List.append_left_eq_self.mp hdomains, List.append_left_eq_self.mp hdevices,
          List.append_left_eq_self.mp hprotocols⟩
      · intro h
        rw [h.1, h.2.1, h.2.2]
        rfl

/-- Along a run of any calls from any state, every reload leaves exactly what is stored if and only
if it always finds the lists empty. -/
theorem reload_exact (c : Controller) (calls : List ConfigCall) :
    (∀ n, run (configStep toJson fromJson) c (calls.take n) =
        run (reloadingStep toJson fromJson) c (calls.take n)) ↔
      Along (configStep toJson fromJson) ListsEmpty c calls := by
  rw [run_take_eq_iff]
  exact along_congr (fun s i _ _ => ⟨configStep_eq_iff s i, fun _ _ => trivial⟩)
    (show (fun _ : Controller => True) c from trivial)
    (along_of_forall (C := fun _ => True) fun _ _ => trivial)

/-- Each further reload puts the stored entries in memory once more. -/
theorem reloads_accumulate (c : Controller) (n : Nat) :
    ∃ c', run (configStep toJson fromJson) c (List.replicate n (.datagram [])) = some c' ∧
      c'.ini = c.ini ∧
      c'.p.domains = c.p.domains ++ (List.replicate n (stored c.ini).domains).flatten := by
  induction n generalizing c with
  | zero => exact ⟨c, rfl, rfl, by simp⟩
  | succ n ih =>
    obtain ⟨c', hrun, hini, hdomains⟩ := ih (readConfig fromJson c [])
    refine ⟨c', ?_, hini, ?_⟩
    · rw [List.replicate_succ]
      exact hrun
    · rw [hdomains, readConfig_empty, List.replicate_succ, List.flatten_cons, List.append_assoc]

end Steps

/-- A `config.ini` with one domain. -/
def oneDomainIni : IniGroup :=
  ⟨none, none, Slots.empty.write ["www.example.com"], .empty, .empty⟩

/-- The second reload doubles the domain, and the next write stores it twice. -/
theorem reload_doubles :
    ¬ ∀ n, run (configStep (fun _ => [0x7B, 0x7D]) fun _ => []) (.fresh oneDomainIni)
        (List.take n [.datagram [], .datagram [], .write]) =
      run (reloadingStep (fun _ => [0x7B, 0x7D]) fun _ => []) (.fresh oneDomainIni)
        (List.take n [.datagram [], .datagram [], .write]) := by
  intro h
  have h3 := h 3
  have hread := congrArg (Option.map fun c => c.ini.domains.read "") h3
  exact absurd hread (by decide)

end Client
end Xsky
