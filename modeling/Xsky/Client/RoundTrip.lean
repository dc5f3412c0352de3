import Xsky.Client.Controller

/-!
# Client.RoundTrip

The settings of the client on their way to another one, and through `config.ini` to the next start.

`received_iff`: what is sent arrives, except that the lists of the receiver stay as they were.

`persisted_iff`: `config.ini` follows the settings in memory through every call, except that one
which changes the device list leaves it behind.
-/

namespace Xsky
namespace Client

open Kit

/-! ## Over the network -/

section Network

variable (toJson : JsonObject → List Byte) (fromJson : List Byte → JsonObject)

/-- The settings of `s` once `t` has read what `s` writes. -/
structure Received (s t : Controller) : Prop where
  start : (readConfig fromJson t (writeConfig toJson s).1).p.isStart = s.p.isStart
  server : (readConfig fromJson t (writeConfig toJson s).1).p.server = s.p.server
  domains : (readConfig fromJson t (writeConfig toJson s).1).p.domains = s.p.domains
  protocols : (readConfig fromJson t (writeConfig toJson s).1).p.protocols = s.p.protocols

theorem configObject_start (p : Private) :
    JsonObject.value (configObject p) "Start" = .bool p.isStart := rfl

theorem configObject_server (p : Private) :
    JsonObject.value (configObject p) "Server" = .string p.server := rfl

variable {toJson fromJson}

/-- A datagram with settings in it sets two of the fields and no list. -/
theorem readConfig_written {s t : Controller}
    (hparse : fromJson (toJson (configObject s.p)) = configObject s.p)
    (hwritten : toJson (configObject s.p) ≠ []) :
    readConfig fromJson t (writeConfig toJson s).1 =
      { t with p := { t.p with isStart := s.p.isStart, server := s.p.server } } := by
  simp only [readConfig, writeConfig, if_pos hwritten, hparse, configObject_start,
    configObject_server]
  rfl

theorem received_iff {s t : Controller}
    (hparse : fromJson (toJson (configObject s.p)) = configObject s.p)
    (hwritten : toJson (configObject s.p) ≠ []) :
    Received toJson fromJson s t ↔
      t.p.domains = s.p.domains ∧ t.p.protocols = s.p.protocols := by
  have hread := @readConfig_written toJson fromJson s t hparse hwritten
  constructor
  · intro h
    have hdomains := h.domains
    have hprotocols := h.protocols
    rw [hread] at hdomains hprotocols
    exact ⟨hdomains, hprotocols⟩
  · rintro ⟨hdomains, hprotocols⟩
    refine ⟨?_, ?_, ?_, ?_⟩
    · rw [hread]
    · rw [hread]
    · rw [hread]
      exact hdomains
    · rw [hread]
      exact hprotocols

/-- A client with one domain. -/
def oneDomain : Controller :=
  ⟨⟨true, serverDefault, ["www.example.com"], [], []⟩, ⟨none, none, .empty, .empty, .empty⟩, []⟩

/-- What the writer makes of its object. -/
def oneDomainJson : List Byte :=
  0x7B :: ("\n    \"Domains\": [\n        \"www.example.com\"\n    ],\n" ++
    "    \"Protocols\": [\n    ],\n    \"Server\": \"127.0.0.1:48888\",\n" ++
    "    \"Start\": true\n\x7d\n").toList.map
      fun c => BitVec.ofNat 8 c.toNat

/-- A parser, as far as that text goes. -/
def parseOneDomain (data : List Byte) : JsonObject :=
  if data = oneDomainJson then configObject oneDomain.p else []

/-- A client with the same domain that is stopped, with another server and a device. -/
def stoppedClient : Controller :=
  ⟨⟨false, "10.0.0.1:48888", ["www.example.com"], ["00:1a:2b:3C:4D:5E|0|phone"], []⟩,
    ⟨none, none, .empty, .empty, .empty⟩, []⟩

theorem received_same_lists :
    Received (fun _ => oneDomainJson) parseOneDomain oneDomain stoppedClient :=
  (received_iff (if_pos rfl) (List.cons_ne_nil _ _)).mpr ⟨rfl, rfl⟩

/-- The domain does not arrive at a client that has none. -/
theorem domain_lost :
    ¬ Received (fun _ => oneDomainJson) parseOneDomain oneDomain (.fresh oneDomain.ini) := by
  intro h
  have hread := @readConfig_written (fun _ => oneDomainJson) parseOneDomain oneDomain
    (.fresh oneDomain.ini) (if_pos rfl) (List.cons_ne_nil _ _)
  have hdomains := h.domains
  rw [hread] at hdomains
  exact absurd hdomains (by decide)

end Network

/-! ## Over a restart -/

section Restart

inductive SetterCall where
  | startService
  | stopService
  | setServer (endpoint : String)
  | setDomainList (domains : List String)
  | setDeviceList (devices : List String)
  | setProtocolList (protocols : List String)

variable (toJson : JsonObject → List Byte) (fromJson : List Byte → JsonObject)

def setterStep (c : Controller) : SetterCall → Option Controller
  | .startService => some (startService toJson c)
  | .stopService => some (stopService toJson c)
  | .setServer endpoint => some (setServer toJson c endpoint)
  | .setDomainList domains => some (setDomainList toJson c domains)
  | .setDeviceList devices => some (setDeviceList c devices)
  | .setProtocolList protocols => some (setProtocolList toJson c protocols)

/-- `config.ini` holds what is in memory; a value that is missing reads as the default. -/
structure Agrees (c : Controller) : Prop where
  start : c.ini.start.getD false = c.p.isStart
  server : c.ini.server.getD serverDefault = c.p.server
  domains : c.ini.domains.read "" = c.p.domains
  devices : c.ini.devices.read "" = c.p.devices
  protocols : c.ini.protocols.read "" = c.p.protocols

/-- It does, and the next start finds it. -/
def Persisted (c : Controller) : Prop :=
  Agrees c ∧ (readConfig fromJson (.fresh c.ini) []).p = c.p

/-- No call puts another device list in memory. -/
def DevicesKept (c : Controller) : SetterCall → Prop
  | .setDeviceList devices => devices = c.p.devices
  | _ => True

variable {toJson fromJson}

theorem Agrees.persisted {c : Controller} (h : Agrees c) : Persisted fromJson c := by
  refine ⟨h, ?_⟩
  simp only [readConfig, ne_eq, not_true_eq_false, if_false, Controller.fresh, Private.init,
    List.nil_append, h.start, h.server, h.domains, h.devices, h.protocols]

/-- Whatever was stored before. -/
theorem sendConfig_agrees (c : Controller) : Agrees (sendConfig toJson c) where
  start := rfl
  server := rfl
  domains := Slots.write_read _ _ _
  devices := Slots.write_read _ _ _
  protocols := Slots.write_read _ _ _

/-- What a setter does that compares first. -/
theorem Agrees.send {c : Controller} (h : Agrees c) (changed : Prop) [Decidable changed]
    (p : Private) : Agrees (if changed then sendConfig toJson { c with p := p } else c) := by
  split
  · exact sendConfig_agrees _
  · exact h

theorem setterStep_agrees {c : Controller} (h : Agrees c) {call : SetterCall}
    (hC : DevicesKept c call) : ∃ c', setterStep toJson c call = some c' ∧ Agrees c' := by
  cases call with
  | startService => exact ⟨_, rfl, h.send _ _⟩
  | stopService => exact ⟨_, rfl, h.send _ _⟩
  | setServer endpoint => exact ⟨_, rfl, h.send _ _⟩
  | setDomainList domains => exact ⟨_, rfl, h.send _ _⟩
  | setDeviceList devices =>
    obtain rfl : devices = c.p.devices := hC
    exact ⟨_, rfl, h⟩
  | setProtocolList protocols => exact ⟨_, rfl, h.send _ _⟩

/-- A device list that is still what is stored is the one that was in memory. -/
theorem devicesKept_of_agrees {c c' : Controller} (h : Agrees c) {call : SetterCall}
    (hstep : setterStep toJson c call = some c') (h' : Agrees c') : DevicesKept c call := by
  cases call with
  | setDeviceList devices =>
    cases hstep
    exact h'.devices.symm.trans h.devices
  | _ => exact trivial

theorem persisted_iff {c : Controller} (hc : Agrees c) (calls : List SetterCall) :
    Always (setterStep toJson) (Persisted fromJson) c calls ↔
      Along (setterStep toJson) DevicesKept c calls :=
  always_iff_along (fun _ h => h.persisted) (fun _ _ h hC => setterStep_agrees h hC)
    (fun _ _ _ h hstep h' => devicesKept_of_agrees h hstep h'.1) hc

/-- A start without `config.ini`, and a domain list. -/
theorem persisted_first_start :
    Always (setterStep fun _ => [0x7B, 0x7D]) (Persisted fun _ => [])
      (.fresh ⟨none, none, .empty, .empty, .empty⟩) [.startService, .setDomainList ["a", "b"]] := by
  have hstart : Agrees (.fresh ⟨none, none, .empty, .empty, .empty⟩) := ⟨rfl, rfl, rfl, rfl, rfl⟩
  exact (persisted_iff hstart _).mpr
    ⟨trivial, fun _ _ => ⟨trivial, fun _ _ => trivial⟩⟩

/-- A device list is gone at the next start. -/
theorem devices_forgotten :
    ¬ Always (setterStep fun _ => [0x7B, 0x7D]) (Persisted fun _ => [])
      (.fresh ⟨none, none, .empty, .empty, .empty⟩) [.setDeviceList ["00:11:22:33:44:55"]] := by
  intro h
  obtain ⟨c, hc, hpersisted⟩ := h.run
  cases hc
  exact absurd hpersisted.1.devices (by decide)

end Restart

end Client
end Xsky
