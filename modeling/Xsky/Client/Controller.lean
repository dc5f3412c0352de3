import Xsky.Kit.Runs
import Xsky.Kit.Mem
import Xsky.Kit.Slots

/-!
# Client.Controller

The settings of `client/Controller.cpp`: in memory, in `config.ini`, and as they are sent over the
network.

The writer and the parser of JSON are parameters. An `IniGroup` is what `QSettings` keeps of the
group `Controller`. The capture half of the class, its signals and where the datagrams go are left
out.
-/

namespace Xsky
namespace Client

open Kit

/-- A `QJsonValue`. The kinds this program does not write convert to no other kind, and are one. -/
inductive JsonValue where
  | other
  | bool (b : Bool)
  | string (s : String)
  | array (l : List JsonValue)

namespace JsonValue

def toBool : JsonValue → Bool
  | bool b => b
  | _ => false

def toString : JsonValue → String
  | string s => s
  | _ => ""

end JsonValue

/-- A `QJsonObject` -/
abbrev JsonObject := List (String × JsonValue)

namespace JsonObject

def insert (obj : JsonObject) (key : String) (v : JsonValue) : JsonObject :=
  (key, v) :: obj.filter (·.1 ≠ key)

/-- `obj[key]` -/
def value (obj : JsonObject) (key : String) : JsonValue := (obj.lookup key).getD .other

end JsonObject

/-- `Controller::Private` -/
structure Private where
  isStart : Bool
  server : String
  domains : List String
  devices : List String
  protocols : List String
deriving DecidableEq

def serverDefault : String := "127.0.0.1:48888"

def Private.init : Private := ⟨false, serverDefault, [], [], []⟩

structure IniGroup where
  start : Option Bool
  server : Option String
  domains : Slots String
  devices : Slots String
  protocols : Slots String

structure Controller where
  p : Private
  ini : IniGroup
  /-- The datagrams sent to the route. -/
  sent : List (List Byte)

/-- A process that has just started and not yet read `config.ini`. -/
def Controller.fresh (ini : IniGroup) : Controller := ⟨.init, ini, []⟩

/-- The object `WriteConfig` builds. The loop over the protocols pushes into `domains`, of which the
object has its own copy by then. -/
def configObject (p : Private) : JsonObject :=
  let obj : JsonObject := JsonObject.insert [] "Start" (.bool p.isStart)
  let obj := JsonObject.insert obj "Server" (.string p.server)
  let domains := p.domains.map JsonValue.string
  let obj := JsonObject.insert obj "Domains" (.array domains)
  let protocols := []
  JsonObject.insert obj "Protocols" (.array protocols)

section

variable (toJson : JsonObject → List Byte) (fromJson : List Byte → JsonObject)

/-- The loops over `Domains` and `Protocols` of a datagram push into a local array, which is not
used, and are left out. -/
def readConfig (c : Controller) (data : List Byte) : Controller :=
  if data ≠ [] then
    let obj := fromJson data
    { c with
      p := { c.p with
        isStart := (JsonObject.value obj "Start").toBool
        server := (JsonObject.value obj "Server").toString } }
  else
    { c with
      p := {
        isStart := c.ini.start.getD false
        server := c.ini.server.getD serverDefault
        domains := c.p.domains ++ c.ini.domains.read ""
        devices := c.p.devices ++ c.ini.devices.read ""
        protocols := c.p.protocols ++ c.ini.protocols.read "" } }

def writeConfig (c : Controller) : List Byte × Controller :=
  (toJson (configObject c.p),
    { c with
      ini := {
        start := some c.p.isStart
        server := some c.p.server
        domains := c.ini.domains.write c.p.domains
        devices := c.ini.devices.write c.p.devices
        protocols := c.ini.protocols.write c.p.protocols } })

/-- `WriteSocket.writeDatagram( WriteConfig(), .. )` -/
def sendConfig (c : Controller) : Controller :=
  let (data, c') := writeConfig toJson c
  { c' with sent := c'.sent ++ [data] }

def startService (c : Controller) : Controller :=
  if c.p.isStart = false then sendConfig toJson { c with p := { c.p with isStart := true } } else c

def stopService (c : Controller) : Controller :=
  if c.p.isStart = true then sendConfig toJson { c with p := { c.p with isStart := false } } else c

def setServer (c : Controller) (endpoint : String) : Controller :=
  if c.p.server ≠ endpoint then sendConfig toJson { c with p := { c.p with server := endpoint } }
  else c

def setDomainList (c : Controller) (domains : List String) : Controller :=
  if c.p.domains ≠ domains then sendConfig toJson { c with p := { c.p with domains := domains } }
  else c

/-- The one setter that neither compares nor writes. -/
def setDeviceList (c : Controller) (devices : List String) : Controller :=
  { c with p := { c.p with devices := devices } }

def setProtocolList (c : Controller) (protocols : List String) : Controller :=
  if c.p.protocols ≠ protocols then
    sendConfig toJson { c with p := { c.p with protocols := protocols } }
  else c

end

end Client
end Xsky
